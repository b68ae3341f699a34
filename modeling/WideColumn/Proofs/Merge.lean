import WideColumn.Options.Merge
import WideColumn.Proofs.Table

/-!
# What options leave alone

`merge` changes a record only through the settings that its kind of record lists, so that what no
setting touches is as in the record that the options are merged into (`merge_keeps`). Two kinds of
records that list settings in common take the same from options (`merge_view`), and a change of a
record that its settings do not notice may be made before or after merging (`merge_through`).
-/

namespace WideColumn

/-- A setting leaves a part of the record alone. -/
def Setting.Keeps {ρ β : Type} (part : ρ → β) (s : Setting ρ) : Prop :=
  ∀ v r r', s.apply v r = .ok r' → part r' = part r

theorem Setting.keeps_of {ρ α β : Type} {part : ρ → β} {key : String}
    {read : String → OptionValue → Except Error α} {put : ρ → α → ρ}
    (h : ∀ r x, part (put r x) = part r) : (Setting.of key read put).Keeps part := by
  intro v r r' happly
  obtain ⟨x, -, rfl⟩ := map_eq_ok.1 happly
  exact h r x

section Merge

variable {ρ β : Type} [Configurable ρ] {part : ρ → β}

theorem Configurable.applyOption_keeps (h : ∀ s ∈ settings (ρ := ρ), s.Keeps part) {r r' : ρ}
    {option : String × OptionValue} (happly : applyOption r option = .ok r') :
    part r' = part r := by
  unfold applyOption at happly
  split at happly
  · rw [← Except.ok.inj happly]
  · split at happly
    · rw [← Except.ok.inj happly]
    · next s hs => exact h s (List.mem_of_find?_eq_some hs) _ _ _ happly

/-- Options leave alone what no setting touches. -/
theorem merge_keeps (h : ∀ s ∈ Configurable.settings (ρ := ρ), s.Keeps part) {r r' : ρ}
    {options : OptionList} (hmerge : merge r options = .ok r') : part r' = part r := by
  exact foldlM_invariant (P := fun r' => part r' = part r)
    (fun _ _ _ _ h₁ h₂ => (Configurable.applyOption_keeps h h₂).trans h₁) rfl hmerge

end Merge

theorem Configurable.setting?_eq_none {ρ : Type} [Configurable ρ] {key : String}
    (h : key ∉ keys ρ) : setting? (ρ := ρ) key = none :=
  List.find?_eq_none.2 fun s hs heq => h (List.mem_map.2 ⟨s, hs, beq_iff_eq.1 heq⟩)

/-! ### The same options on two records -/

section View

variable {ρ ρ' : Type}

/-- What a setting of a record does is seen in a view of it as what a setting of the view does. -/
def Setting.Through (view : ρ → ρ') (s : Setting ρ) (s' : Setting ρ') : Prop :=
  ∀ v r r₁, s.apply v r = .ok r₁ → s'.apply v (view r) = .ok (view r₁)

theorem Setting.through_of {α : Type} {view : ρ → ρ'} {key : String}
    {read : String → OptionValue → Except Error α} {put : ρ → α → ρ} {put' : ρ' → α → ρ'}
    (h : ∀ r x, put' (view r) x = view (put r x)) :
    (Setting.of key read put).Through view (Setting.of key read put') := by
  intro v r r₁ happly
  obtain ⟨x, hread, rfl⟩ := map_eq_ok.1 happly
  exact map_eq_ok.2 ⟨x, hread, h r x⟩

theorem Setting.mirrors_of {α : Type} {view : ρ → ρ'} {key : String}
    {read : String → OptionValue → Except Error α} {put : ρ → α → ρ} {put' : ρ' → α → ρ'}
    (h : ∀ r x, put' (view r) x = view (put r x)) (v : OptionValue) (r : ρ) :
    (Setting.of key read put').apply v (view r) =
      ((Setting.of key read put).apply v r).map view := by
  unfold Setting.of
  dsimp only
  cases read key v with
  | error e => rfl
  | ok x => exact congrArg Except.ok (h r x)

variable [Configurable ρ] [Configurable ρ']

/-- Options of a key do to a view of a record what they do to the record. -/
def Configurable.Agree (view : ρ → ρ') (key : String) : Prop :=
  match setting? (ρ := ρ) key, setting? (ρ := ρ') key with
  | some s, some s' => s.Through view s'
  | some s, none => s.Keeps view
  | none, some _ => False
  | none, none => True

theorem Configurable.agree_of_not_mem {view : ρ → ρ'} {key : String} (h : key ∉ keys ρ)
    (h' : key ∉ keys ρ') : Agree view key := by
  rw [Agree, setting?_eq_none h, setting?_eq_none h']
  trivial

theorem Configurable.applyOption_view {view : ρ → ρ'} {option : String × OptionValue}
    (h : Agree view option.1) {r r₁ : ρ} (happly : applyOption r option = .ok r₁) :
    applyOption (view r) option = .ok (view r₁) := by
  unfold applyOption at happly ⊢
  by_cases habsent : option.2.isAbsent = true
  · rw [if_pos habsent] at happly ⊢
    rw [Except.ok.inj happly]
  · rw [if_neg habsent] at happly ⊢
    unfold Agree at h
    generalize setting? (ρ := ρ) option.1 = s at happly h
    generalize setting? (ρ := ρ') option.1 = s' at h ⊢
    cases s with
    | none =>
      obtain rfl := Except.ok.inj happly
      cases s' with
      | none => rfl
      | some s' => exact h.elim
    | some s =>
      cases s' with
      | none => exact congrArg Except.ok (h _ _ _ happly).symm
      | some s' => exact h _ _ _ happly

/-- Options do to a view of a record what they do to the record. -/
theorem merge_view {view : ρ → ρ'} {options : OptionList}
    (h : ∀ e ∈ options.entries, Configurable.Agree view e.1) {r r₁ : ρ}
    (hmerge : merge r options = .ok r₁) : merge (view r) options = .ok (view r₁) := by
  unfold merge at hmerge ⊢
  generalize options.entries = entries at hmerge h
  induction entries generalizing r with
  | nil =>
    rw [← pure_eq_ok.1 hmerge]
    rfl
  | cons option entries ih =>
    obtain ⟨hoption, h⟩ := List.forall_mem_cons.1 h
    rw [List.foldlM_cons] at hmerge ⊢
    obtain ⟨r₂, h₂, hmerge⟩ := bind_eq_ok.1 hmerge
    exact bind_eq_ok.2 ⟨_, Configurable.applyOption_view hoption h₂, ih hmerge h⟩

/-- A change of a record that its settings do not notice may be made before or after merging. -/
theorem merge_through (view : ρ → ρ) (h : ∀ s ∈ Configurable.settings (ρ := ρ), s.Through view s)
    {r r₁ : ρ} {options : OptionList} (hmerge : merge r options = .ok r₁) :
    merge (view r) options = .ok (view r₁) := by
  refine merge_view (fun e _ => ?_) hmerge
  unfold Configurable.Agree
  cases hs : Configurable.setting? (ρ := ρ) e.1 with
  | none => trivial
  | some s => exact h s (List.mem_of_find?_eq_some hs)

/-- Options of a key do to a view of a record what they do to the record, and fail on both with the
same error. -/
def Configurable.Mirrors (view : ρ → ρ') (key : String) : Prop :=
  match setting? (ρ := ρ) key, setting? (ρ := ρ') key with
  | some s, some s' => ∀ v r, s'.apply v (view r) = (s.apply v r).map view
  | none, none => True
  | _, _ => False

theorem Configurable.mirrors_of_not_mem {view : ρ → ρ'} {key : String} (h : key ∉ keys ρ)
    (h' : key ∉ keys ρ') : Mirrors view key := by
  rw [Mirrors, setting?_eq_none h, setting?_eq_none h']
  trivial

theorem Configurable.applyOption_map {view : ρ → ρ'} {option : String × OptionValue}
    (h : Mirrors view option.1) (r : ρ) :
    applyOption (view r) option = (applyOption r option).map view := by
  unfold applyOption
  by_cases habsent : option.2.isAbsent = true
  · rw [if_pos habsent, if_pos habsent]
    rfl
  · rw [if_neg habsent, if_neg habsent]
    unfold Mirrors at h
    generalize setting? (ρ := ρ) option.1 = s at h ⊢
    generalize setting? (ρ := ρ') option.1 = s' at h ⊢
    cases s <;> cases s' <;> first | rfl | exact h.elim | exact h _ _

/-- Then a view of a record is merged as the record is, up to the error. -/
theorem merge_map {view : ρ → ρ'} {options : OptionList}
    (h : ∀ e ∈ options.entries, Configurable.Mirrors view e.1) (r : ρ) :
    merge (view r) options = (merge r options).map view := by
  unfold merge
  generalize options.entries = entries at h
  induction entries generalizing r with
  | nil => rfl
  | cons option entries ih =>
    obtain ⟨hoption, h⟩ := List.forall_mem_cons.1 h
    rw [List.foldlM_cons, List.foldlM_cons, Configurable.applyOption_map hoption]
    cases Configurable.applyOption r option with
    | error e => rfl
    | ok r₁ => exact ih r₁ h

end View

/-! ### Scans -/

/-- The table and the bounds of a scan are no options. -/
theorem GetRange.merge_bounds {r r' : GetRange} {options : OptionList}
    (h : merge r options = .ok r') :
    r'.table = r.table ∧ r'.start = r.start ∧ r'.stop = r.stop := by
  have hkeeps : ∀ s ∈ Configurable.settings (ρ := GetRange),
      s.Keeps fun r => (r.table, r.start, r.stop) := by
    simp only [Configurable.settings, List.forall_mem_cons, List.not_mem_nil, false_imp_iff,
      implies_true, and_true]
    and_intros <;> exact Setting.keeps_of fun _ _ => rfl
  simpa using merge_keeps hkeeps h

/-- Where a scan starts is no option. -/
theorem GetRange.merge_start {r r' : GetRange} {options : OptionList}
    (h : merge r options = .ok r') (start : Key) :
    merge { r with start } options = .ok { r' with start } := by
  refine merge_through (fun r => { r with start }) ?_ h
  simp only [Configurable.settings, List.forall_mem_cons, List.not_mem_nil, false_imp_iff,
    implies_true, and_true]
  and_intros <;> exact Setting.through_of fun _ _ => rfl

/-- Nor is the token at which it resumes. -/
theorem GetRange.merge_token {r r' : GetRange} {options : OptionList}
    (h : merge r options = .ok r') (token : Option Bytes) :
    merge { r with token } options = .ok { r' with token } := by
  refine merge_through (fun r => { r with token }) ?_ h
  simp only [Configurable.settings, List.forall_mem_cons, List.not_mem_nil, false_imp_iff,
    implies_true, and_true]
  and_intros <;> exact Setting.through_of fun _ _ => rfl

/-! ### Updates -/

/-- The changes of an update are not merged with the other options. -/
theorem UpdateRow.merge_updates {r r' : UpdateRow} {options : OptionList}
    (h : merge r options = .ok r') (updates : UpdateSet) :
    merge { r with updates } options = .ok { r' with updates } := by
  refine merge_through (fun r => { r with updates }) ?_ h
  simp only [Configurable.settings, List.forall_mem_cons, List.not_mem_nil, false_imp_iff,
    implies_true, and_true]
  and_intros <;> exact Setting.through_of fun _ _ => rfl

end WideColumn
