import Mathlib.Data.List.Nodup
import Mathlib.Data.List.Forall2
import WideColumn.Proofs.Merge
import WideColumn.Proofs.Shape

/-!
# The fields that options set

A record that accepts options consists of the fields that they set and of a rest that they leave
alone (`Described`): its table, its keys, its cells. Of each field it is known how the value of the
option is read, and `Setting.Sets` says that this is what the setting of the same key does, and
nothing else.

Options are merged into a record field by field, then: `Merged` says of each field that it is read
from the last value given for its key, or as before where none is given.

* `merge_eq_error_iff` : the first value that cannot be read is the error;
* `names_of_merge` : an error names the option that it is about;
* `merge_eq_ok_iff` : otherwise the record is `Merged`, which leaves no choice;
* `RecordKind.merge_exact` : both for each kind of record, with what follows for options that are
  merged again, one list after the other, or in another order.
-/

namespace WideColumn

/-! ### Fields -/

/-- A field of a record that an option sets. -/
structure Field (ρ : Type) where
  /-- The key of the option. -/
  key : String
  /-- What the field holds. -/
  Content : Type
  /-- What a value of the option makes of the field. -/
  read : OptionValue → Except Error Content
  /-- The field. -/
  get : ρ → Content

namespace Field

variable {ρ α : Type}

/-- A field that always holds something. -/
def of (key : String) (read : String → OptionValue → Except Error α) (get : ρ → α) : Field ρ :=
  ⟨key, α, read key, get⟩

/-- A field that may be unset. -/
def optional (key : String) (read : String → OptionValue → Except Error α)
    (get : ρ → Option α) : Field ρ :=
  ⟨key, Option α, fun v => (read key v).map some, get⟩

@[simp] theorem key_of {key : String} {read : String → OptionValue → Except Error α}
    {get : ρ → α} : (of key read get).key = key := rfl

@[simp] theorem key_optional {key : String} {read : String → OptionValue → Except Error α}
    {get : ρ → Option α} : (optional key read get).key = key := rfl

@[simp] theorem get_of_eq_iff {key : String} {read : String → OptionValue → Except Error α}
    {get : ρ → α} {r r' : ρ} :
    (of key read get).get r = (of key read get).get r' ↔ get r = get r' := Iff.rfl

@[simp] theorem get_optional_eq_iff {key : String} {read : String → OptionValue → Except Error α}
    {get : ρ → Option α} {r r' : ρ} :
    (optional key read get).get r = (optional key read get).get r' ↔ get r = get r' := Iff.rfl

end Field

@[simp] theorem Field.failsWith_of {ρ α : Type} {key : String}
    {read : String → OptionValue → Except Error α} {get : ρ → α} {P : Error → Prop}
    {v : OptionValue} : FailsWith P ((of key read get).read v) ↔ FailsWith P (read key v) := Iff.rfl

@[simp] theorem Field.failsWith_optional {ρ α : Type} {key : String}
    {read : String → OptionValue → Except Error α} {get : ρ → Option α} {P : Error → Prop}
    {v : OptionValue} :
    FailsWith P ((optional key read get).read v) ↔ FailsWith P (read key v) :=
  forall_congr' fun _ => imp_congr_left map_eq_error

@[simp] theorem failsWith_keyless {α : Type} {key : String} {read : OptionValue → Except Error α}
    {P : Error → Prop} {v : OptionValue} :
    FailsWith P (keyless read key v) ↔ FailsWith P (read v) := Iff.rfl

/-- A setting sets a field to what it reads, and leaves all other fields and the rest alone. -/
structure Setting.Sets {ρ κ : Type} (fields : List (Field ρ)) (rest : ρ → κ) (s : Setting ρ)
    (f : Field ρ) : Prop where
  /-- The setting and the field have the same key. -/
  key : s.key = f.key
  /-- A value that cannot be read is refused. -/
  refuses : ∀ v r e, f.read v = .error e → s.apply v r = .error e
  /-- A value that is read goes into the field, and nowhere else. -/
  writes : ∀ v r x, f.read v = .ok x → ∃ r', s.apply v r = .ok r' ∧ f.get r' = x ∧
    rest r' = rest r ∧ ∀ g ∈ fields, g.key ≠ f.key → g.get r' = g.get r

/-- Records that consist of fields set by options and a rest. -/
class Described (ρ : Type) [Configurable ρ] where
  /-- The fields. -/
  fields : List (Field ρ)
  /-- What is beside the fields. -/
  Rest : Type
  /-- The rest of a record. -/
  rest : ρ → Rest
  /-- A record has nothing else. -/
  ext : ∀ r r', (∀ f ∈ fields, f.get r = f.get r') → rest r = rest r' → r = r'
  /-- Each setting sets a field of its own. -/
  sets : List.Forall₂ (Setting.Sets fields rest) Configurable.settings fields
  /-- No two fields have the same key. -/
  nodup : (fields.map (·.key)).Nodup
  /-- What a field is refused with names its option. -/
  names : ∀ f ∈ fields, ∀ v, FailsWith (Error.Names f.key v) (f.read v)

/-! ### What options say -/

/-- The last value given for a key. What is mentioned without a value is not given. -/
def OptionList.given? (os : OptionList) (key : String) : Option OptionValue :=
  (os.entries.reverse.find? fun e => e.1 == key && !e.2.isAbsent).map (·.2)

namespace Described

variable {ρ : Type} [Configurable ρ] [Described ρ]

/-- The field of a key. -/
def field? (ρ : Type) [Configurable ρ] [Described ρ] (key : String) : Option (Field ρ) :=
  (fields (ρ := ρ)).find? fun f => f.key == key

/-- Why an option cannot be merged into a record: it is given for a field, which cannot be read
from it. -/
def fault? (ρ : Type) [Configurable ρ] [Described ρ] (e : String × OptionValue) : Option Error :=
  if e.2.isAbsent then none
  else (field? ρ e.1).bind fun f => match f.read e.2 with
    | .error err => some err
    | .ok _ => none

end Described

open Described

/-- A record is what options make of another: each field is read from the last value given for it,
or as before where none is given, and the rest is as before. -/
structure Merged {ρ : Type} [Configurable ρ] [Described ρ] (r : ρ) (os : OptionList) (r' : ρ) :
    Prop where
  /-- A field that is given is read from the last value. -/
  set : ∀ f ∈ fields (ρ := ρ), ∀ v, os.given? f.key = some v → f.read v = .ok (f.get r')
  /-- A field that is not given stays. -/
  kept : ∀ f ∈ fields (ρ := ρ), os.given? f.key = none → f.get r' = f.get r
  /-- The rest stays. -/
  rest : rest r' = rest r

/-! ### Merging -/

namespace OptionList

theorem given?_nil (key : String) : given? ⟨[]⟩ key = none := rfl

theorem given?_cons (e : String × OptionValue) (es : List (String × OptionValue)) (key : String) :
    given? ⟨e :: es⟩ key =
      (given? ⟨es⟩ key).or (if e.1 = key ∧ e.2.isAbsent = false then some e.2 else none) := by
  unfold given?
  rw [List.reverse_cons, List.find?_append, Option.map_or]
  congr 1
  by_cases h : e.1 = key ∧ e.2.isAbsent = false <;> simp [h]

/-- What is given for a key depends on the options of that key alone. -/
theorem given?_filter (os : OptionList) (key : String) :
    given? ⟨os.entries.filter (·.1 == key)⟩ key = os.given? key := by
  unfold given?
  rw [← List.filter_reverse, List.find?_filter]
  congr 2
  funext e
  cases e.1 == key <;> simp

end OptionList

section Merge

variable {ρ : Type} [Configurable ρ] [Described ρ]

omit [Configurable ρ] [Described ρ] in
/-- In lists that agree in their keys, both or none have an item of a key. -/
theorem find?_cases {P : Setting ρ → Field ρ → Prop} (hP : ∀ s f, P s f → s.key = f.key)
    {ss : List (Setting ρ)} {fs : List (Field ρ)} (h : List.Forall₂ P ss fs) (key : String) :
    ((ss.find? fun s => s.key == key) = none ∧ (fs.find? fun f => f.key == key) = none) ∨
    ∃ s f, (ss.find? fun s => s.key == key) = some s ∧ (fs.find? fun f => f.key == key) = some f ∧
      P s f := by
  induction h with
  | nil => exact .inl ⟨rfl, rfl⟩
  | @cons s f _ _ h _ ih =>
    have hsame := hP s f h
    by_cases hkey : s.key = key
    · refine .inr ⟨s, f, ?_, ?_, h⟩
      · rw [List.find?_cons_of_pos (by simpa using hkey)]
      · rw [List.find?_cons_of_pos (by simpa [← hsame] using hkey)]
    · rw [List.find?_cons_of_neg (by simpa using hkey),
        List.find?_cons_of_neg (by simpa [← hsame] using hkey)]
      exact ih

/-- Every setting has its field, and the other way round. -/
theorem Described.setting?_cases (key : String) :
    (Configurable.setting? (ρ := ρ) key = none ∧ field? ρ key = none) ∨
    ∃ s f, Configurable.setting? (ρ := ρ) key = some s ∧ field? ρ key = some f ∧
      s.Sets fields rest f :=
  find?_cases (fun _ _ h => h.key) sets key

theorem Described.mem_of_field? {key : String} {f : Field ρ} (h : field? ρ key = some f) :
    f ∈ fields (ρ := ρ) ∧ f.key = key :=
  ⟨List.mem_of_find?_eq_some h, by simpa using List.find?_some h⟩

theorem Described.eq_of_key_eq {f g : Field ρ} (hf : f ∈ fields (ρ := ρ))
    (hg : g ∈ fields (ρ := ρ)) (h : f.key = g.key) : f = g :=
  List.inj_on_of_nodup_map nodup hf hg h

/-- An option that is passed over says nothing about any field. -/
theorem given?_of_passed {e : String × OptionValue} (h : e.2.isAbsent = true ∨ field? ρ e.1 = none)
    {f : Field ρ} (hf : f ∈ fields (ρ := ρ)) : OptionList.given? ⟨[e]⟩ f.key = none := by
  rw [OptionList.given?_cons, if_neg, OptionList.given?_nil, Option.none_or]
  rintro ⟨hkey, habsent⟩
  rcases h with h | h
  · rw [h] at habsent
    cases habsent
  · have hne := List.find?_eq_none.1 h f hf
    simp [hkey] at hne

/-- One option is a fault, or makes of a record what it says. -/
theorem applyOption_cases (r : ρ) (e : String × OptionValue) :
    (∃ err, fault? ρ e = some err ∧ Configurable.applyOption r e = .error err) ∨
    ∃ r', fault? ρ e = none ∧ Configurable.applyOption r e = .ok r' ∧ Merged r ⟨[e]⟩ r' := by
  have hpassed (h : e.2.isAbsent = true ∨ field? ρ e.1 = none) : Merged r ⟨[e]⟩ r :=
    { set := fun f hf v hv => by rw [given?_of_passed h hf] at hv; cases hv
      kept := fun _ _ _ => rfl
      rest := rfl }
  unfold Configurable.applyOption fault?
  by_cases habsent : e.2.isAbsent = true
  · rw [if_pos habsent, if_pos habsent]
    exact .inr ⟨r, rfl, rfl, hpassed (.inl habsent)⟩
  rw [if_neg habsent, if_neg habsent]
  obtain ⟨hs, hf⟩ | ⟨s, f, hs, hf, hsets⟩ := setting?_cases (ρ := ρ) e.1
  · rw [hs, hf]
    exact .inr ⟨r, rfl, rfl, hpassed (.inr hf)⟩
  rw [hs, hf, Option.bind_some]
  obtain ⟨hmem, hkey⟩ := mem_of_field? hf
  cases hread : f.read e.2 with
  | error err => exact .inl ⟨err, rfl, hsets.refuses _ _ _ hread⟩
  | ok x =>
    obtain ⟨r', happly, hget, hrest, hothers⟩ := hsets.writes _ r _ hread
    refine .inr ⟨r', rfl, happly, ?_, ?_, hrest⟩
    -- The option gives the field of its key, and no other.
    all_goals
      intro g hg
      rw [OptionList.given?_cons, OptionList.given?_nil, Option.none_or, ← hkey]
    · intro v hv
      split at hv
      · next h =>
        obtain rfl := eq_of_key_eq hmem hg h.1
        obtain rfl := Option.some.inj hv
        rw [hread, hget]
      · cases hv
    · intro hnone
      refine hothers g hg fun heq => ?_
      rw [if_pos ⟨heq.symm, by simpa using habsent⟩] at hnone
      cases hnone

theorem Merged.refl (r : ρ) : Merged r ⟨[]⟩ r where
  set _ _ _ := nofun
  kept _ _ _ := rfl
  rest := rfl

/-- What one option makes of a record, and others of that, they make of it together. -/
theorem Merged.cons {r r₁ r' : ρ} {e : String × OptionValue} {es : List (String × OptionValue)}
    (h : Merged r ⟨[e]⟩ r₁) (h' : Merged r₁ ⟨es⟩ r') : Merged r ⟨e :: es⟩ r' where
  set f hf v hv := by
    rw [OptionList.given?_cons] at hv
    cases hes : OptionList.given? ⟨es⟩ f.key with
    | some w =>
      rw [hes, Option.some_or] at hv
      exact Option.some.inj hv ▸ h'.set f hf w hes
    | none =>
      rw [hes, Option.none_or] at hv
      rw [h'.kept f hf hes]
      refine h.set f hf v ?_
      rw [OptionList.given?_cons, OptionList.given?_nil, Option.none_or, hv]
  kept f hf hnone := by
    rw [OptionList.given?_cons, Option.or_eq_none_iff] at hnone
    rw [h'.kept f hf hnone.1]
    refine h.kept f hf ?_
    rw [OptionList.given?_cons, OptionList.given?_nil, Option.none_or, hnone.2]
  rest := h'.rest.trans h.rest

/-- Options leave no choice. -/
theorem Merged.unique {r r₁ r₂ : ρ} {os : OptionList} (h₁ : Merged r os r₁)
    (h₂ : Merged r os r₂) : r₁ = r₂ := by
  refine ext r₁ r₂ (fun f hf => ?_) (h₁.rest.trans h₂.rest.symm)
  cases hgiven : os.given? f.key with
  | none => rw [h₁.kept f hf hgiven, h₂.kept f hf hgiven]
  | some v => exact Except.ok.inj ((h₁.set f hf v hgiven).symm.trans (h₂.set f hf v hgiven))

/-- Options make of what they have made of a record the same. -/
theorem Merged.again {r r' : ρ} {os : OptionList} (h : Merged r os r') : Merged r' os r' where
  set := h.set
  kept _ _ _ := rfl
  rest := rfl

/-- A fault is a value that the setting of its key refuses, whatever the record. -/
theorem fault?_eq_some_iff (r : ρ) {e : String × OptionValue} {err : Error} :
    fault? ρ e = some err ↔ e.2.isAbsent = false ∧
      ∃ s, Configurable.setting? (ρ := ρ) e.1 = some s ∧ s.apply e.2 r = .error err := by
  unfold fault?
  by_cases habsent : e.2.isAbsent = true
  · rw [if_pos habsent, habsent]
    exact ⟨nofun, fun h => nomatch h.1⟩
  rw [if_neg habsent]
  obtain ⟨hs, hf⟩ | ⟨s, f, hs, hf, hsets⟩ := setting?_cases (ρ := ρ) e.1
  · rw [hs, hf]
    exact ⟨nofun, fun h => nomatch h.2⟩
  rw [hs, hf, Option.bind_some]
  cases hread : f.read e.2 with
  | error e' =>
    refine ⟨fun h => ⟨by simpa using habsent, s, rfl, ?_⟩, fun ⟨_, _, h, happly⟩ => ?_⟩
    · rw [hsets.refuses _ r _ hread, Option.some.inj h]
    · obtain rfl := Option.some.inj h
      rw [hsets.refuses _ r _ hread] at happly
      exact congrArg some (Except.error.inj happly)
  | ok x =>
    refine ⟨nofun, fun ⟨_, _, h, happly⟩ => ?_⟩
    obtain rfl := Option.some.inj h
    obtain ⟨r', hok, -⟩ := hsets.writes _ r _ hread
    rw [hok] at happly
    cases happly

/-- A fault names the option that it is about. -/
theorem names_of_fault? {e : String × OptionValue} {err : Error} (h : fault? ρ e = some err) :
    err.Names e.1 e.2 := by
  unfold fault? at h
  split at h
  · cases h
  · obtain ⟨f, hf, hread⟩ := Option.bind_eq_some_iff.1 h
    obtain ⟨hmem, hkey⟩ := mem_of_field? hf
    split at hread
    · next err' herror =>
      obtain rfl := Option.some.inj hread
      exact hkey ▸ names f hmem e.2 err' herror
    · cases hread

/-- Options are refused with their first fault, or make of a record what they say. -/
theorem merge_cases (r : ρ) (os : OptionList) :
    (∃ err, os.entries.findSome? (fault? ρ) = some err ∧ merge r os = .error err) ∨
    ∃ r', os.entries.findSome? (fault? ρ) = none ∧ merge r os = .ok r' ∧ Merged r os r' := by
  obtain ⟨es⟩ := os
  unfold merge
  dsimp only
  induction es generalizing r with
  | nil => exact .inr ⟨r, rfl, rfl, .refl r⟩
  | cons e es ih =>
    rw [List.foldlM_cons, List.findSome?_cons]
    obtain ⟨err, hfault, happly⟩ | ⟨r₁, hfault, happly, hmerged⟩ := applyOption_cases r e
    · rw [hfault, happly]
      exact .inl ⟨err, rfl, rfl⟩
    · rw [hfault, happly]
      obtain ⟨err, hfaults, hmerge⟩ | ⟨r', hfaults, hmerge, hmerged'⟩ := ih r₁
      · exact .inl ⟨err, hfaults, hmerge⟩
      · exact .inr ⟨r', hfaults, hmerge, hmerged.cons hmerged'⟩

/-- Merging fails exactly with the first fault. -/
theorem merge_eq_error_iff {r : ρ} {os : OptionList} {err : Error} :
    merge r os = .error err ↔ os.entries.findSome? (fault? ρ) = some err := by
  obtain ⟨e, hfault, hmerge⟩ | ⟨r', hfault, hmerge, -⟩ := merge_cases r os
  · rw [hfault, hmerge, Except.error.injEq, Option.some.injEq]
  · rw [hfault, hmerge]
    exact ⟨nofun, nofun⟩

/-- What is refused is an option of the list, and the error names its key and its value, or what of
the value does not fit. -/
theorem names_of_merge {r : ρ} {os : OptionList} {err : Error} (h : merge r os = .error err) :
    ∃ e ∈ os.entries, err.Names e.1 e.2 := by
  obtain ⟨e, he, hfault⟩ := List.exists_of_findSome?_eq_some (merge_eq_error_iff.1 h)
  exact ⟨e, he, names_of_fault? hfault⟩

/-- Merging succeeds exactly if there is no fault, with the one record that the options say. -/
theorem merge_eq_ok_iff {r r' : ρ} {os : OptionList} :
    merge r os = .ok r' ↔ os.entries.findSome? (fault? ρ) = none ∧ Merged r os r' := by
  obtain ⟨e, hfault, hmerge⟩ | ⟨r₁, hfault, hmerge, hmerged⟩ := merge_cases r os
  · rw [hfault, hmerge]
    exact ⟨nofun, fun h => nomatch h.1⟩
  · rw [hfault, hmerge, Except.ok.injEq]
    exact ⟨fun h => ⟨rfl, h ▸ hmerged⟩, fun h => hmerged.unique h.2⟩

/-- Options in another order make the same of a record, as long as those of one key stay in
order. -/
theorem merge_reordered {r r' : ρ} {os os' : OptionList}
    (h : ∀ key : String, os'.entries.filter (·.1 == key) = os.entries.filter (·.1 == key))
    (hmerge : merge r os = .ok r') : merge r os' = .ok r' := by
  obtain ⟨hfault, hmerged⟩ := merge_eq_ok_iff.1 hmerge
  have hgiven : ∀ key, os'.given? key = os.given? key := fun key => by
    rw [← OptionList.given?_filter, h, OptionList.given?_filter]
  refine merge_eq_ok_iff.2 ⟨List.findSome?_eq_none_iff.2 fun e he => ?_, ?_, ?_, hmerged.rest⟩
  · refine List.findSome?_eq_none_iff.1 hfault e ?_
    have hmem : e ∈ os'.entries.filter (·.1 == e.1) := List.mem_filter.2 ⟨he, beq_self_eq_true _⟩
    exact (List.mem_filter.1 (h e.1 ▸ hmem)).1
  · exact fun f hf v hv => hmerged.set f hf v (hgiven f.key ▸ hv)
  · exact fun f hf hnone => hmerged.kept f hf (hgiven f.key ▸ hnone)

omit [Described ρ] in
theorem merge_append (r : ρ) (os os' : OptionList) :
    merge r ⟨os.entries ++ os'.entries⟩ = merge r os >>= fun r' => merge r' os' :=
  List.foldlM_append

theorem merge_again {r r' : ρ} {os : OptionList} (h : merge r os = .ok r') :
    merge r' os = .ok r' := by
  obtain ⟨hfault, hmerged⟩ := merge_eq_ok_iff.1 h
  exact merge_eq_ok_iff.2 ⟨hfault, hmerged.again⟩

end Merge

/-! ### The fields of each record -/

section Sets

variable {ρ κ α : Type} {fields : List (Field ρ)} {rest : ρ → κ} {key : String}
  {read : String → OptionValue → Except Error α} {put : ρ → α → ρ}

@[simp] theorem Setting.Sets.of {get : ρ → α} (hget : ∀ r x, get (put r x) = x)
    (hrest : ∀ r x, rest (put r x) = rest r)
    (hothers : ∀ g ∈ fields, g.key = key ∨ ∀ r x, g.get (put r x) = g.get r) :
    (Setting.of key read put).Sets fields rest (.of key read get) where
  key := rfl
  refuses v r e h := by
    change read key v = .error e at h
    simp only [Setting.of, h]
    rfl
  writes v r x h := by
    change read key v = .ok x at h
    refine ⟨put r x, by simp only [Setting.of, h]; rfl, hget r x, hrest r x, fun g hg hne => ?_⟩
    exact (hothers g hg).resolve_left hne r x

@[simp] theorem Setting.Sets.optional {get : ρ → Option α} (hget : ∀ r x, get (put r x) = some x)
    (hrest : ∀ r x, rest (put r x) = rest r)
    (hothers : ∀ g ∈ fields, g.key = key ∨ ∀ r x, g.get (put r x) = g.get r) :
    (Setting.of key read put).Sets fields rest (.optional key read get) where
  key := rfl
  refuses v r e h := by
    cases hread : read key v with
    | error e' =>
      simp only [Field.optional, hread] at h
      obtain rfl := Except.error.inj h
      simp only [Setting.of, hread]
      rfl
    | ok x =>
      simp only [Field.optional, hread] at h
      cases h
  writes v r x h := by
    obtain ⟨y, hread, rfl⟩ := map_eq_ok.1 h
    refine ⟨put r y, by simp only [Setting.of, hread]; rfl, hget r y, hrest r y, fun g hg hne => ?_⟩
    exact (hothers g hg).resolve_left hne r y

end Sets

open Shape

instance : Described GetRow where
  fields := [
    .of "columns_to_get" columns (·.columns),
    .optional "max_versions" integer (·.maxVersions),
    .optional "time_range" (keyless timeRange) (·.timeRange),
    .optional "filter" filter (·.filter),
    .optional "start_column" text (·.startColumn),
    .optional "end_column" text (·.endColumn),
    .optional "transaction_id" text (·.transaction)]
  Rest := String × Key
  rest r := (r.table, r.key)
  ext r r' h hrest := by
    cases r
    cases r'
    simp_all
  sets := by simp [Configurable.settings]
  nodup := by decide
  names := by simp

instance : Described PutRow where
  fields := [
    .of "condition" condition (·.condition),
    .of "return_type" (keyless returnType) (·.returnType),
    .optional "transaction_id" text (·.transaction)]
  Rest := String × Key × List Cell
  rest r := (r.table, r.key, r.cells)
  ext r r' h hrest := by
    cases r
    cases r'
    simp_all
  sets := by simp [Configurable.settings]
  nodup := by decide
  names := by simp

instance : Described UpdateRow where
  fields := [
    .of "condition" condition (·.condition),
    .of "return_type" (keyless returnType) (·.returnType),
    .of "return_columns" columns (·.returnColumns),
    .optional "transaction_id" text (·.transaction)]
  Rest := String × Key × UpdateSet
  rest r := (r.table, r.key, r.updates)
  ext r r' h hrest := by
    cases r
    cases r'
    simp_all
  sets := by simp [Configurable.settings]
  nodup := by decide
  names := by simp

instance : Described DeleteRow where
  fields := [
    .of "condition" condition (·.condition),
    .of "return_type" (keyless returnType) (·.returnType),
    .optional "transaction_id" text (·.transaction)]
  Rest := String × Key
  rest r := (r.table, r.key)
  ext r r' h hrest := by
    cases r
    cases r'
    simp_all
  sets := by simp [Configurable.settings]
  nodup := by decide
  names := by simp

instance : Described GetRange where
  fields := [
    .of "direction" (keyless direction) (·.direction),
    .of "columns_to_get" columns (·.columns),
    .optional "max_versions" integer (·.maxVersions),
    .optional "time_range" (keyless timeRange) (·.timeRange),
    .optional "limit" integer (·.limit),
    .optional "filter" filter (·.filter),
    .optional "start_column" text (·.startColumn),
    .optional "end_column" text (·.endColumn),
    .optional "transaction_id" text (·.transaction)]
  Rest := String × Key × Key × Option Bytes
  rest r := (r.table, r.start, r.stop, r.token)
  ext r r' h hrest := by
    cases r
    cases r'
    simp_all
  sets := by simp [Configurable.settings]
  nodup := by decide
  names := by simp

instance : Described CreateTable where
  fields := [
    .of "reserved_throughput_read" integer (·.reserved.read),
    .of "reserved_throughput_write" integer (·.reserved.write),
    .optional "time_to_live" integer (·.options.timeToLive),
    .optional "max_versions" integer (·.options.maxVersions),
    .optional "deviation_cell_version_in_sec" integer (·.options.deviation),
    .optional "allow_update" flag (·.options.allowUpdate),
    .optional "stream_spec" streamSpec (·.stream),
    .of "defined_columns" records (·.columns),
    .of "index_metas" records (·.indexes)]
  Rest := String × List KeySchema
  rest r := (r.table, r.keys)
  ext r r' h hrest := by
    obtain ⟨_, _, _, _, ⟨_, _⟩, ⟨_, _, _, _⟩, _⟩ := r
    obtain ⟨_, _, _, _, ⟨_, _⟩, ⟨_, _, _, _⟩, _⟩ := r'
    simp_all
  sets := by simp [Configurable.settings]
  nodup := by decide
  names := by simp

instance : Described UpdateTable where
  fields := [
    .optional "reserved_throughput_read" integer (·.reservedRead),
    .optional "reserved_throughput_write" integer (·.reservedWrite),
    .optional "time_to_live" integer (·.options.timeToLive),
    .optional "max_versions" integer (·.options.maxVersions),
    .optional "deviation_cell_version_in_sec" integer (·.options.deviation),
    .optional "allow_update" flag (·.options.allowUpdate),
    .optional "stream_spec" streamSpec (·.stream)]
  Rest := String
  rest r := r.table
  ext r r' h hrest := by
    obtain ⟨_, _, _, ⟨_, _, _, _⟩, _⟩ := r
    obtain ⟨_, _, _, ⟨_, _, _, _⟩, _⟩ := r'
    simp_all
  sets := by simp [Configurable.settings]
  nodup := by decide
  names := by simp

instance : Described RowsQuery where
  fields := [
    .of "columns_to_get" columns (·.columns),
    .optional "max_versions" integer (·.maxVersions),
    .optional "time_range" (keyless timeRange) (·.timeRange),
    .optional "filter" filter (·.filter),
    .optional "start_column" text (·.startColumn),
    .optional "end_column" text (·.endColumn)]
  Rest := String × List Key
  rest r := (r.table, r.keys)
  ext r r' h hrest := by
    cases r
    cases r'
    simp_all
  sets := by simp [Configurable.settings]
  nodup := by decide
  names := by simp

instance : Described RowWrite where
  fields := [
    .of "condition" condition (·.condition),
    .of "return_type" (keyless returnType) (·.returnType),
    .of "return_columns" columns (·.returnColumns)]
  Rest := WriteKind × Key × List Cell × UpdateSet
  rest r := (r.kind, r.key, r.cells, r.updates)
  ext r r' h hrest := by
    cases r
    cases r'
    simp_all
  sets := by simp [Configurable.settings]
  nodup := by decide
  names := by simp

instance : Described BatchWrite where
  fields := [
    .optional "transaction_id" text (·.transaction),
    .optional "is_atomic" flag (·.isAtomic)]
  Rest := List TableWrites
  rest r := r.tables
  ext r r' h hrest := by
    cases r
    cases r'
    simp_all
  sets := by simp [Configurable.settings]
  nodup := by decide
  names := by simp

instance : Described Search where
  fields := [
    .of "search_query" json (·.query),
    .of "columns_to_get" columns (·.columns),
    .of "routing_values" primaryKeys (·.routing),
    .optional "timeout_ms" integer (·.timeout)]
  Rest := String × String
  rest r := (r.table, r.index)
  ext r r' h hrest := by
    cases r
    cases r'
    simp_all
  sets := by simp [Configurable.settings]
  nodup := by decide
  names := by simp

/-! ### All kinds of records -/

/-- The kinds of records that accept options. -/
inductive RecordKind where
  /-- The creation of a table. -/
  | createTable
  /-- A change of the settings of a table. -/
  | updateTable
  /-- The read of a row. -/
  | getRow
  /-- The put of a row. -/
  | putRow
  /-- The update of a row. -/
  | updateRow
  /-- The deletion of a row. -/
  | deleteRow
  /-- The scan of a range. -/
  | getRange
  /-- Rows to read of a table, in a batch. -/
  | rowsQuery
  /-- One row of a batch write. -/
  | rowWrite
  /-- A batch write. -/
  | batchWrite
  /-- A search. -/
  | search
deriving DecidableEq, Inhabited

namespace RecordKind

/-- The records of a kind. -/
def Record : RecordKind → Type
  | createTable => CreateTable
  | updateTable => UpdateTable
  | getRow => GetRow
  | putRow => PutRow
  | updateRow => UpdateRow
  | deleteRow => DeleteRow
  | getRange => GetRange
  | rowsQuery => RowsQuery
  | rowWrite => RowWrite
  | batchWrite => BatchWrite
  | search => Search

instance (k : RecordKind) : Configurable k.Record :=
  match k with
  | createTable => inferInstanceAs (Configurable CreateTable)
  | updateTable => inferInstanceAs (Configurable UpdateTable)
  | getRow => inferInstanceAs (Configurable GetRow)
  | putRow => inferInstanceAs (Configurable PutRow)
  | updateRow => inferInstanceAs (Configurable UpdateRow)
  | deleteRow => inferInstanceAs (Configurable DeleteRow)
  | getRange => inferInstanceAs (Configurable GetRange)
  | rowsQuery => inferInstanceAs (Configurable RowsQuery)
  | rowWrite => inferInstanceAs (Configurable RowWrite)
  | batchWrite => inferInstanceAs (Configurable BatchWrite)
  | search => inferInstanceAs (Configurable Search)

instance (k : RecordKind) : Described k.Record :=
  match k with
  | createTable => inferInstanceAs (Described CreateTable)
  | updateTable => inferInstanceAs (Described UpdateTable)
  | getRow => inferInstanceAs (Described GetRow)
  | putRow => inferInstanceAs (Described PutRow)
  | updateRow => inferInstanceAs (Described UpdateRow)
  | deleteRow => inferInstanceAs (Described DeleteRow)
  | getRange => inferInstanceAs (Described GetRange)
  | rowsQuery => inferInstanceAs (Described RowsQuery)
  | rowWrite => inferInstanceAs (Described RowWrite)
  | batchWrite => inferInstanceAs (Described BatchWrite)
  | search => inferInstanceAs (Described Search)

/-- **Merging is exact.** Options are refused if and only if the value of one of them is refused by
the setting of its key, and then with the error of the first such option. Otherwise the fields that
are given are read from the last values given for them, and all else is as before. To merge the
same options again changes nothing, to merge two lists joined is to merge one after the other, and
the order of options of different keys does not matter to a result. -/
theorem merge_exact (k : RecordKind) (r : k.Record) (os : OptionList) :
    (∀ e err, fault? k.Record e = some err ↔ e.2.isAbsent = false ∧
      ∃ s, Configurable.setting? (ρ := k.Record) e.1 = some s ∧ s.apply e.2 r = .error err) ∧
    (∀ err, merge r os = .error err ↔ os.entries.findSome? (fault? k.Record) = some err) ∧
    (∀ r', merge r os = .ok r' ↔
      os.entries.findSome? (fault? k.Record) = none ∧ Merged r os r') ∧
    (∀ r', merge r os = .ok r' → merge r' os = .ok r') ∧
    (∀ os', merge r ⟨os.entries ++ os'.entries⟩ = merge r os >>= fun r' => merge r' os') ∧
    (∀ os' r', (∀ key : String,
        os'.entries.filter (·.1 == key) = os.entries.filter (·.1 == key)) →
      merge r os = .ok r' → merge r os' = .ok r') :=
  ⟨fun _ _ => fault?_eq_some_iff r, fun _ => merge_eq_error_iff, fun _ => merge_eq_ok_iff,
    fun _ => merge_again, merge_append r os, fun _ _ => merge_reordered⟩

/-- A scan with a limit that is given twice, once mentioned without a value, and with an option
that scans do not know: the last limit counts, in whatever place the direction is given. -/
theorem merge_exact_range :
    let r : GetRange := { table := "t", stop := [], token := some [1] }
    let r' : GetRange := { r with limit := some 7, direction := .backward }
    let limits : List (String × OptionValue) :=
      [("limit", .integer 5), ("limit", .absent), ("pages", .integer 1), ("limit", .integer 7)]
    let backward : String × OptionValue := ("direction", .symbol "backward")
    merge r ⟨backward :: limits⟩ = .ok r' ∧ merge r ⟨limits ++ [backward]⟩ = .ok r' ∧
      merge r' ⟨limits ++ [backward]⟩ = .ok r' := by
  intro r r' limits backward
  have hmerge : merge r ⟨backward :: limits⟩ = .ok r' := rfl
  obtain ⟨-, -, -, -, -, hreordered⟩ := merge_exact .getRange r ⟨backward :: limits⟩
  obtain ⟨-, -, -, hagain, -, -⟩ := merge_exact .getRange r ⟨limits ++ [backward]⟩
  have hmerge' : merge r ⟨limits ++ [backward]⟩ = .ok r' := by
    refine hreordered ⟨limits ++ [backward]⟩ r' (fun key => ?_) hmerge
    by_cases hdirection : "direction" = key
    · obtain rfl := hdirection
      rfl
    · simp [limits, backward, List.filter_cons, hdirection]
  exact ⟨hmerge, hmerge', hagain _ hmerge'⟩

end RecordKind

end WideColumn
