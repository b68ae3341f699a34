import Mathlib
import WideColumn.Expr.Resolve
import WideColumn.Proofs.Result

/-!
# The grammar of filter text

`Expr.Derives` is the grammar as a relation: which tokens form which phrase, and the expression
that they stand for. It says nothing about how a text is read. `Expr.parse` reads exactly what it
derives:

* `derived_readers` : what the reader takes from the front of the tokens is derivable;
* `Derives.readWhole` : what is derivable is taken whole, whatever comes behind it;
* `Derives.unique` : no tokens form a phrase in two ways;
* `ofText_exact` : a text is accepted exactly if it consists of tokens that form a disjunction, and
  every other text is an invalid expression.
-/

namespace WideColumn

namespace Expr

/-! ### The grammar -/

/-- The phrases of the grammar, the loosest first. -/
inductive Phrase where
  /-- Conjunctions joined by `or`. -/
  | disjunction
  /-- Negations joined by `and`. -/
  | conjunction
  /-- Any number of `not` before a primary. -/
  | negation
  /-- A disjunction in parentheses, or a comparison. -/
  | primary

/-- A token that names a column. -/
inductive Names : Token → String → Prop
  /-- A name. -/
  | identifier (s : String) : Names (.identifier s) s
  /-- Any text in quotes. -/
  | string (s : String) : Names (.string s) s

/-- The tokens of a column: its name, possibly with an option block behind it. -/
inductive IsColumn : List Token → String → Prop
  /-- The name alone. -/
  | name {t : Token} {s : String} (h : Names t s) : IsColumn [t] s
  /-- The name with a block. -/
  | block {t : Token} {s : String} (h : Names t s) (b : String) :
      IsColumn [t, .block b] s!"{s}[{b}]"

/-- The token of what a column is compared with. -/
inductive Denotes : Token → Operand → Prop
  /-- Text in quotes. -/
  | string (s : String) : Denotes (.string s) (.literal (.string s))
  /-- An integer. -/
  | integer (n : Int64) : Denotes (.integer n) (.literal (.integer n))
  /-- A double. -/
  | double (x : Float) : Denotes (.double x) (.literal (.double x))
  /-- A truth value. -/
  | boolean (b : Bool) : Denotes (.boolean b) (.literal (.boolean b))
  /-- A name stands for a variable. -/
  | identifier (s : String) : Denotes (.identifier s) (.binding s)

/-- Further operands of a chain, a separator before each. -/
def joined (separator : Token) (parts : List (List Token × Expr)) : List Token :=
  parts.flatMap fun p => separator :: p.1

/-- The tokens of a phrase and the expression that they stand for. -/
inductive Derives : Phrase → List Token → Expr → Prop
  /-- A column, an operator and a value. -/
  | comparison {cs : List Token} {c : String} {t : Token} {v : Operand} (op : Comparator)
      (hc : IsColumn cs c) (hv : Denotes t v) :
      Derives .primary (cs ++ [.comparator op, t]) (.compare ⟨op, c, v⟩)
  /-- A group stands for what is in it. -/
  | group {ts : List Token} {e : Expr} (h : Derives .disjunction ts e) :
      Derives .primary (.leftParen :: ts ++ [.rightParen]) e
  /-- A primary as it is. -/
  | primary {ts : List Token} {e : Expr} (h : Derives .primary ts e) : Derives .negation ts e
  /-- The negation of one expression. -/
  | not {ts : List Token} {e : Expr} (h : Derives .negation ts e) :
      Derives .negation (.not :: ts) (.combine .not [e])
  /-- A single operand as it is. -/
  | negation {ts : List Token} {e : Expr} (h : Derives .negation ts e) : Derives .conjunction ts e
  /-- Two or more operands are combined at once, in their order. -/
  | and {ts : List Token} {e : Expr} {parts : List (List Token × Expr)}
      (h : Derives .negation ts e) (hne : parts ≠ [])
      (hparts : ∀ p ∈ parts, Derives .negation p.1 p.2) :
      Derives .conjunction (ts ++ joined .and parts) (.combine .and (e :: parts.map (·.2)))
  /-- A single operand as it is. -/
  | conjunction {ts : List Token} {e : Expr} (h : Derives .conjunction ts e) :
      Derives .disjunction ts e
  /-- Two or more operands are combined at once, in their order. -/
  | or {ts : List Token} {e : Expr} {parts : List (List Token × Expr)}
      (h : Derives .conjunction ts e) (hne : parts ≠ [])
      (hparts : ∀ p ∈ parts, Derives .conjunction p.1 p.2) :
      Derives .disjunction (ts ++ joined .or parts) (.combine .or (e :: parts.map (·.2)))

/-- Expressions that text can stand for: chains have two or more parts and negations one. -/
inductive Shaped : Expr → Prop
  /-- A comparison. -/
  | compare (c : Comparison) : Shaped (.compare c)
  /-- A chain. -/
  | chain {op : Connective} {es : List Expr} (hop : op ≠ .not) (hlen : 2 ≤ es.length)
      (hes : ∀ e ∈ es, Shaped e) : Shaped (.combine op es)
  /-- A negation. -/
  | not {e : Expr} (h : Shaped e) : Shaped (.combine .not [e])

theorem Derives.shaped {p : Phrase} {ts : List Token} {e : Expr} (h : Derives p ts e) :
    Shaped e := by
  induction h with
  | comparison => exact .compare _
  | group _ ih => exact ih
  | primary _ ih => exact ih
  | not _ ih => exact .not ih
  | negation _ ih => exact ih
  | conjunction _ ih => exact ih
  | and _ hne _ ih ihs | or _ hne _ ih ihs =>
    refine .chain (by simp) ?_ fun e he => ?_
    · have := List.length_pos_iff.2 hne
      simpa
    · rcases List.mem_cons.1 he with rfl | he
      · exact ih
      · obtain ⟨p, hp, rfl⟩ := List.mem_map.1 he
        exact ihs p hp

theorem Derives.ne_nil {p : Phrase} {ts : List Token} {e : Expr} (h : Derives p ts e) :
    ts ≠ [] := by
  induction h with
  | comparison => simp
  | group => simp
  | not => simp
  | primary _ ih => exact ih
  | negation _ ih => exact ih
  | conjunction _ ih => exact ih
  | and _ _ _ ih | or _ _ _ ih => exact List.append_ne_nil_of_left_ne_nil ih _

/-! ### Comparisons -/

theorem column_eq_ok {ts rest : List Token} {c : String} (h : column ts = .ok (c, rest)) :
    ∃ cs, IsColumn cs c ∧ ts = cs ++ rest := by
  unfold column at h
  split at h
  · next s b ts => cases h; exact ⟨_, .block (.identifier s) b, rfl⟩
  · next s b ts => cases h; exact ⟨_, .block (.string s) b, rfl⟩
  · cases h; exact ⟨_, .name (.identifier _), rfl⟩
  · cases h; exact ⟨_, .name (.string _), rfl⟩
  · cases h

theorem IsColumn.read {cs : List Token} {c : String} (h : IsColumn cs c) (op : Comparator)
    (ts : List Token) :
    column (cs ++ .comparator op :: ts) = .ok (c, .comparator op :: ts) := by
  cases h with
  | name h => cases h <;> rfl
  | block h b => cases h <;> rfl

theorem comparator_eq_ok {ts rest : List Token} {op : Comparator} :
    comparator ts = .ok (op, rest) ↔ ts = .comparator op :: rest := by
  constructor
  · intro h
    unfold comparator at h
    split at h
    · cases h; rfl
    · cases h
  · rintro rfl
    rfl

theorem operand_eq_ok {ts rest : List Token} {v : Operand} :
    operand ts = .ok (v, rest) ↔ ∃ t, Denotes t v ∧ ts = t :: rest := by
  constructor
  · intro h
    unfold operand at h
    split at h <;> cases h
    · exact ⟨_, .string _, rfl⟩
    · exact ⟨_, .integer _, rfl⟩
    · exact ⟨_, .double _, rfl⟩
    · exact ⟨_, .boolean _, rfl⟩
    · exact ⟨_, .identifier _, rfl⟩
  · rintro ⟨t, ht, rfl⟩
    cases ht <;> rfl

theorem comparison_eq_ok {ts rest : List Token} {e : Expr} :
    comparison ts = .ok (e, rest) ↔ ∃ c op v, e = .compare ⟨op, c, v⟩ ∧
      ∃ cs t, IsColumn cs c ∧ Denotes t v ∧ ts = cs ++ .comparator op :: t :: rest := by
  unfold comparison
  constructor
  · intro h
    obtain ⟨⟨c, ts₁⟩, hc, h⟩ := bind_eq_ok.1 h
    obtain ⟨⟨op, ts₂⟩, hop, h⟩ := bind_eq_ok.1 h
    obtain ⟨⟨v, ts₃⟩, hv, h⟩ := bind_eq_ok.1 h
    obtain ⟨rfl, rfl⟩ := Prod.mk.inj (pure_eq_ok.1 h)
    obtain ⟨cs, hcs, rfl⟩ := column_eq_ok hc
    obtain rfl := comparator_eq_ok.1 hop
    obtain ⟨t, ht, rfl⟩ := operand_eq_ok.1 hv
    exact ⟨c, op, v, rfl, cs, t, hcs, ht, rfl⟩
  · rintro ⟨c, op, v, rfl, cs, t, hc, ht, rfl⟩
    refine bind_eq_ok.2 ⟨_, hc.read op (t :: rest), ?_⟩
    refine bind_eq_ok.2 ⟨_, comparator_eq_ok.2 rfl, ?_⟩
    exact bind_eq_ok.2 ⟨_, operand_eq_ok.2 ⟨t, ht, rfl⟩, rfl⟩

/-! ### What is read is derivable -/

/-- What a reader takes from the front of some tokens is derivable. -/
def Derived (p : Phrase) (ts : List Token) (answer : Except SyntaxFault (Expr × List Token)) :
    Prop :=
  ∀ e rest, answer = .ok (e, rest) → ∃ pre, Derives p pre e ∧ ts = pre ++ rest

/-- What a reader takes as the further operands of a chain is derivable. -/
def DerivedParts (p : Phrase) (separator : Token) (ts : List Token)
    (answer : Except SyntaxFault (List Expr × List Token)) : Prop :=
  ∀ es rest, answer = .ok (es, rest) → ∃ parts : List (List Token × Expr),
    (∀ part ∈ parts, Derives p part.1 part.2) ∧ es = parts.map (·.2) ∧
      ts = joined separator parts ++ rest

theorem derived_unexpected (p : Phrase) (ts : List Token) (expected : Expected) :
    Derived p ts (unexpected expected ts) := nofun

theorem derivedParts_unexpected (p : Phrase) (separator : Token) (ts ts' : List Token)
    (expected : Expected) : DerivedParts p separator ts (unexpected expected ts') := nofun

theorem derivedParts_nil (p : Phrase) (separator : Token) (ts : List Token) :
    DerivedParts p separator ts (.ok ([], ts)) := by
  rintro es rest ⟨⟩
  exact ⟨[], by simp, rfl, rfl⟩

theorem derivedParts_cons {p : Phrase} {separator : Token} {ts : List Token}
    {first : Except SyntaxFault (Expr × List Token)}
    {more : List Token → Except SyntaxFault (List Expr × List Token)}
    (hfirst : Derived p ts first) (hmore : ∀ ts', DerivedParts p separator ts' (more ts')) :
    DerivedParts p separator (separator :: ts) (do
      let (e, ts) ← first
      let (es, ts) ← more ts
      return (e :: es, ts)) := by
  intro es rest h
  obtain ⟨⟨e, ts₁⟩, h₁, h⟩ := bind_eq_ok.1 h
  obtain ⟨⟨es', ts₂⟩, h₂, h⟩ := bind_eq_ok.1 h
  obtain ⟨rfl, rfl⟩ := Prod.mk.inj (pure_eq_ok.1 h)
  obtain ⟨pre, hpre, rfl⟩ := hfirst e ts₁ h₁
  obtain ⟨parts, hparts, rfl, rfl⟩ := hmore ts₁ es' ts₂ h₂
  refine ⟨(pre, e) :: parts, ?_, rfl, by simp [joined]⟩
  intro part hp
  rcases List.mem_cons.1 hp with rfl | hp
  · exact hpre
  · exact hparts part hp

/-- A first operand and further ones make a chain, or stand alone if there is no further one. -/
theorem derived_chain {p q : Phrase} {separator : Token} {op : Connective} {ts : List Token}
    {first : Except SyntaxFault (Expr × List Token)}
    {more : List Token → Except SyntaxFault (List Expr × List Token)}
    (hone : ∀ {ts e}, Derives p ts e → Derives q ts e)
    (hmany : ∀ {ts e parts}, Derives p ts e → parts ≠ [] →
      (∀ part ∈ parts, Derives p part.1 part.2) →
      Derives q (ts ++ joined separator parts) (.combine op (e :: parts.map (·.2))))
    (hfirst : Derived p ts first) (hmore : ∀ ts', DerivedParts p separator ts' (more ts')) :
    Derived q ts (do
      let (e, ts) ← first
      let (es, ts) ← more ts
      return (ofChain op e es, ts)) := by
  intro e rest h
  obtain ⟨⟨e', ts₁⟩, h₁, h⟩ := bind_eq_ok.1 h
  obtain ⟨⟨es, ts₂⟩, h₂, h⟩ := bind_eq_ok.1 h
  obtain ⟨rfl, rfl⟩ := Prod.mk.inj (pure_eq_ok.1 h)
  obtain ⟨pre, hpre, rfl⟩ := hfirst e' ts₁ h₁
  obtain ⟨parts, hparts, rfl, rfl⟩ := hmore ts₁ es ts₂ h₂
  cases parts with
  | nil => exact ⟨pre, hone hpre, rfl⟩
  | cons part parts => exact ⟨_, hmany hpre (by simp) hparts, (List.append_assoc ..).symm⟩

theorem derived_not {ts : List Token} {inner : Except SyntaxFault (Expr × List Token)}
    (h : Derived .negation ts inner) :
    Derived .negation (.not :: ts) (do
      let (e, ts) ← inner
      return (notAll [e], ts)) := by
  intro e rest hok
  obtain ⟨⟨e', ts'⟩, h', hok⟩ := bind_eq_ok.1 hok
  obtain ⟨rfl, rfl⟩ := Prod.mk.inj (pure_eq_ok.1 hok)
  obtain ⟨pre, hpre, rfl⟩ := h e' ts' h'
  exact ⟨_, .not hpre, rfl⟩

theorem rightParen_eq_ok {ts rest : List Token} :
    rightParen ts = .ok rest ↔ ts = .rightParen :: rest := by
  constructor
  · intro h
    unfold rightParen at h
    split at h
    · cases h; rfl
    · cases h
  · rintro rfl
    rfl

theorem derived_group {ts : List Token} {inner : Except SyntaxFault (Expr × List Token)}
    (h : Derived .disjunction ts inner) :
    Derived .negation (.leftParen :: ts) (do
      let (e, ts) ← inner
      let ts ← rightParen ts
      return (e, ts)) := by
  intro e rest hok
  obtain ⟨⟨e', ts'⟩, h', hok⟩ := bind_eq_ok.1 hok
  obtain ⟨ts'', hparen, hok⟩ := bind_eq_ok.1 hok
  obtain ⟨rfl, rfl⟩ := Prod.mk.inj (pure_eq_ok.1 hok)
  obtain rfl := rightParen_eq_ok.1 hparen
  obtain ⟨pre, hpre, rfl⟩ := h e' _ h'
  exact ⟨_, .primary (.group hpre), by simp⟩

theorem derived_comparison (ts : List Token) : Derived .negation ts (comparison ts) := by
  intro e rest h
  obtain ⟨c, op, v, rfl, cs, t, hc, hv, rfl⟩ := comparison_eq_ok.1 h
  exact ⟨_, .primary (.comparison op hc hv), by simp⟩

/-- What the readers take is derivable, however deep they may go. -/
theorem derived_readers :
    (∀ n ts, Derived .disjunction ts (disjunction n ts)) ∧
    (∀ n ts, DerivedParts .conjunction .or ts (moreDisjuncts n ts)) ∧
    (∀ n ts, Derived .conjunction ts (conjunction n ts)) ∧
    (∀ n ts, DerivedParts .negation .and ts (moreConjuncts n ts)) ∧
    ∀ n ts, Derived .negation ts (negation n ts) := by
  -- One case for each branch of the five readers.
  apply disjunction.mutual_induct
  case case1 => exact fun ts => derived_unexpected _ _ _
  case case2 => exact fun n ts first more => derived_chain .conjunction .or first more
  case case3 => exact fun n ts first more => derivedParts_cons first more
  case case4 => exact fun ts => derivedParts_unexpected _ _ _ _ _
  case case5 =>
    intro n ts hsucc hzero
    rw [moreDisjuncts.eq_3 n ts hsucc hzero]
    exact derivedParts_nil _ _ _
  case case6 => exact fun ts => derived_unexpected _ _ _
  case case7 => exact fun n ts first more => derived_chain .negation .and first more
  case case8 => exact fun n ts first more => derivedParts_cons first more
  case case9 => exact fun ts => derivedParts_unexpected _ _ _ _ _
  case case10 =>
    intro n ts hsucc hzero
    rw [moreConjuncts.eq_3 n ts hsucc hzero]
    exact derivedParts_nil _ _ _
  case case11 => exact fun n ts inner => derived_not inner
  case case12 => exact fun n ts inner => derived_group inner
  case case13 =>
    intro ts
    rw [negation.eq_3]
    exact derived_unexpected _ _ _
  case case14 =>
    intro n ts hnot hparen hzero
    rw [negation.eq_4 n ts hzero hnot hparen]
    exact derived_comparison ts

/-! ### What is derivable is read -/

namespace Phrase

/-- The reader of a phrase. -/
def read : Phrase → Nat → List Token → Except SyntaxFault (Expr × List Token)
  | disjunction => Expr.disjunction
  | conjunction => Expr.conjunction
  | negation => Expr.negation
  | primary => Expr.negation

/-- How many calls lie between the reader of a phrase and that of a primary. -/
def depth : Phrase → Nat
  | disjunction => 2
  | conjunction => 1
  | negation => 0
  | primary => 0

/-- Tokens with which a phrase does not go on. -/
def Stops : Phrase → List Token → Prop
  | disjunction, ts => ts.head? ≠ some .or ∧ ts.head? ≠ some .and
  | conjunction, ts => ts.head? ≠ some .and
  | negation, _ => True
  | primary, _ => True

end Phrase

/-- A phrase is read whole where its tokens stand in front, and the rest is left. -/
def ReadWhole (p : Phrase) (ts : List Token) (e : Expr) : Prop :=
  ∀ n rest, 4 * ts.length + p.depth ≤ n → p.Stops rest → p.read n (ts ++ rest) = .ok (e, rest)

theorem moreConjuncts_of_head?_ne {n : Nat} {ts : List Token} (h : ts.head? ≠ some .and) :
    moreConjuncts n ts = .ok ([], ts) := by
  apply moreConjuncts.eq_3
  · rintro n ts - rfl
    exact h rfl
  · rintro ts - rfl
    exact h rfl

theorem moreDisjuncts_of_head?_ne {n : Nat} {ts : List Token} (h : ts.head? ≠ some .or) :
    moreDisjuncts n ts = .ok ([], ts) := by
  apply moreDisjuncts.eq_3
  · rintro n ts - rfl
    exact h rfl
  · rintro ts - rfl
    exact h rfl

/-- The further operands of a chain are read one after the other. -/
theorem read_joined (p : Phrase) (separator : Token)
    (more : Nat → List Token → Except SyntaxFault (List Expr × List Token))
    (hcons : ∀ n ts, more (n + 1) (separator :: ts) = (do
      let (e, ts) ← p.read n ts
      let (es, ts) ← more n ts
      return (e :: es, ts)))
    (hdepth : p.depth ≤ 1) (hsep : ∀ ts, p.Stops (separator :: ts)) {rest : List Token}
    (hstop : p.Stops rest) (hnil : ∀ n, more n rest = .ok ([], rest))
    {parts : List (List Token × Expr)} (hparts : ∀ part ∈ parts, ReadWhole p part.1 part.2)
    {n : Nat} (hn : 4 * (joined separator parts).length ≤ n) :
    more n (joined separator parts ++ rest) = .ok (parts.map (·.2), rest) := by
  induction parts generalizing n with
  | nil => exact hnil n
  | cons part parts ih =>
    have hlen : (joined separator (part :: parts)).length =
        part.1.length + (joined separator parts).length + 1 := by
      simp [joined]
    obtain ⟨n, rfl⟩ : ∃ m, n = m + 1 := ⟨n - 1, by omega⟩
    have hjoin : joined separator (part :: parts) ++ rest =
        separator :: (part.1 ++ (joined separator parts ++ rest)) := by
      simp [joined]
    -- Behind an operand stands a separator or what stands behind the chain.
    have hnext : p.Stops (joined separator parts ++ rest) := by
      cases parts with
      | nil => exact hstop
      | cons part' parts => exact hsep _
    have hfirst := hparts part List.mem_cons_self n _ (by omega) hnext
    have hmore := ih (fun q hq => hparts q (List.mem_cons_of_mem _ hq)) (n := n) (by omega)
    rw [hjoin, hcons]
    exact bind_eq_ok.2 ⟨_, hfirst, bind_eq_ok.2 ⟨_, hmore, rfl⟩⟩

theorem readWhole_conjunction {ts : List Token} {e : Expr} (parts : List (List Token × Expr))
    (h : ReadWhole .negation ts e) (hparts : ∀ p ∈ parts, ReadWhole .negation p.1 p.2) :
    ReadWhole .conjunction (ts ++ joined .and parts) (ofChain .and e (parts.map (·.2))) := by
  intro n rest hn hstop
  rw [List.length_append, Phrase.depth] at hn
  obtain ⟨n, rfl⟩ : ∃ m, n = m + 1 := ⟨n - 1, by omega⟩
  have hmore : moreConjuncts n (joined .and parts ++ rest) = .ok (parts.map (·.2), rest) :=
    read_joined .negation .and moreConjuncts (fun _ _ => rfl) (Nat.zero_le 1) (fun _ => trivial)
      trivial (fun _ => moreConjuncts_of_head?_ne hstop) hparts (by omega)
  have hfirst := h n (joined .and parts ++ rest) (by rw [Phrase.depth]; omega) trivial
  rw [List.append_assoc]
  exact bind_eq_ok.2 ⟨_, hfirst, bind_eq_ok.2 ⟨_, hmore, rfl⟩⟩

theorem readWhole_disjunction {ts : List Token} {e : Expr} (parts : List (List Token × Expr))
    (h : ReadWhole .conjunction ts e) (hparts : ∀ p ∈ parts, ReadWhole .conjunction p.1 p.2) :
    ReadWhole .disjunction (ts ++ joined .or parts) (ofChain .or e (parts.map (·.2))) := by
  intro n rest hn hstop
  rw [List.length_append, Phrase.depth] at hn
  obtain ⟨n, rfl⟩ : ∃ m, n = m + 1 := ⟨n - 1, by omega⟩
  have hmore : moreDisjuncts n (joined .or parts ++ rest) = .ok (parts.map (·.2), rest) :=
    read_joined .conjunction .or moreDisjuncts (fun _ _ => rfl) (Nat.le_refl 1)
      (fun _ => by simp [Phrase.Stops]) hstop.2 (fun _ => moreDisjuncts_of_head?_ne hstop.1)
      hparts (by omega)
  have hnext : Phrase.conjunction.Stops (joined .or parts ++ rest) := by
    cases parts with
    | nil => exact hstop.2
    | cons part parts => simp [Phrase.Stops, joined]
  have hfirst := h n (joined .or parts ++ rest) (by rw [Phrase.depth]; omega) hnext
  rw [List.append_assoc]
  exact bind_eq_ok.2 ⟨_, hfirst, bind_eq_ok.2 ⟨_, hmore, rfl⟩⟩

theorem readWhole_not {ts : List Token} {e : Expr} (h : ReadWhole .negation ts e) :
    ReadWhole .negation (.not :: ts) (.combine .not [e]) := by
  intro n rest hn hstop
  rw [List.length_cons, Phrase.depth] at hn
  obtain ⟨n, rfl⟩ : ∃ m, n = m + 1 := ⟨n - 1, by omega⟩
  exact bind_eq_ok.2 ⟨_, h n rest (by rw [Phrase.depth]; omega) trivial, rfl⟩

theorem readWhole_group {ts : List Token} {e : Expr} (h : ReadWhole .disjunction ts e) :
    ReadWhole .primary (.leftParen :: ts ++ [.rightParen]) e := by
  intro n rest hn hstop
  rw [List.length_append, List.length_cons, Phrase.depth] at hn
  obtain ⟨n, rfl⟩ : ∃ m, n = m + 1 := ⟨n - 1, by omega⟩
  have hinner := h n (.rightParen :: rest) (by rw [Phrase.depth]; omega) (by simp [Phrase.Stops])
  rw [List.append_assoc]
  exact bind_eq_ok.2 ⟨_, hinner, bind_eq_ok.2 ⟨_, rightParen_eq_ok.2 rfl, rfl⟩⟩

theorem readWhole_comparison {cs : List Token} {c : String} {t : Token} {v : Operand}
    (op : Comparator) (hc : IsColumn cs c) (hv : Denotes t v) :
    ReadWhole .primary (cs ++ [.comparator op, t]) (.compare ⟨op, c, v⟩) := by
  intro n rest hn hstop
  have hread : comparison (cs ++ [.comparator op, t] ++ rest) = .ok (.compare ⟨op, c, v⟩, rest) :=
    comparison_eq_ok.2 ⟨c, op, v, rfl, cs, t, hc, hv, by simp⟩
  rw [← hread]
  simp only [List.length_append, List.length_cons] at hn
  obtain ⟨n, rfl⟩ : ∃ m, n = m + 1 := ⟨n - 1, by omega⟩
  -- A column starts neither a negation nor a group.
  cases hc with
  | name h => cases h <;> rfl
  | block h b => cases h <;> rfl

/-- What is derivable is read whole. -/
theorem Derives.readWhole {p : Phrase} {ts : List Token} {e : Expr} (h : Derives p ts e) :
    ReadWhole p ts e := by
  induction h with
  | comparison op hc hv => exact readWhole_comparison op hc hv
  | group _ ih => exact readWhole_group ih
  | primary _ ih => exact ih
  | not _ ih => exact readWhole_not ih
  | negation _ ih =>
    have := readWhole_conjunction [] ih nofun
    rwa [joined, List.flatMap_nil, List.append_nil] at this
  | conjunction _ ih =>
    have := readWhole_disjunction [] ih nofun
    rwa [joined, List.flatMap_nil, List.append_nil] at this
  | @and ts e parts _ hne _ ih ihs =>
    have := readWhole_conjunction parts ih ihs
    cases parts with
    | nil => exact absurd rfl hne
    | cons part parts => exact this
  | @or ts e parts _ hne _ ih ihs =>
    have := readWhole_disjunction parts ih ihs
    cases parts with
    | nil => exact absurd rfl hne
    | cons part parts => exact this

/-! ### Whole texts -/

/-- Tokens are read as an expression exactly if they form a disjunction that stands for it. -/
theorem ofTokens_eq_ok_iff {ts : List Token} {e : Expr} :
    ofTokens ts = .ok e ↔ Derives .disjunction ts e := by
  unfold ofTokens
  constructor
  · intro h
    split at h
    · cases h
    · obtain ⟨⟨e', rest⟩, hread, h⟩ := bind_eq_ok.1 h
      dsimp only at h
      split at h
      · next hrest =>
        obtain rfl := pure_eq_ok.1 h
        obtain ⟨pre, hpre, rfl⟩ := derived_readers.1 _ _ e' rest hread
        rw [List.isEmpty_iff.1 hrest, List.append_nil]
        exact hpre
      · cases h
  · intro h
    have hread := h.readWhole (4 * ts.length + 4) [] (by simp [Phrase.depth])
      (by simp [Phrase.Stops])
    rw [List.append_nil] at hread
    rw [if_neg (by simpa using h.ne_nil)]
    exact bind_eq_ok.2 ⟨_, hread, rfl⟩

/-- No tokens stand for two expressions. -/
theorem Derives.unique {ts : List Token} {e e' : Expr} (h : Derives .disjunction ts e)
    (h' : Derives .disjunction ts e') : e = e' :=
  Except.ok.inj ((ofTokens_eq_ok_iff.2 h).symm.trans (ofTokens_eq_ok_iff.2 h'))

theorem parse_eq_ok_iff {text : String} {e : Expr} :
    parse text = .ok e ↔ ∃ ts, Token.scan text.toList = .ok ts ∧ Derives .disjunction ts e := by
  rw [parse, bind_eq_ok]
  simp only [ofTokens_eq_ok_iff]

theorem ofText_eq_ok_iff {text : String} {e : Expr} : ofText text = .ok e ↔ parse text = .ok e := by
  unfold ofText
  cases parse text <;> simp [Except.mapError]

/-- **The reader accepts the grammar.**  A text is accepted exactly if it consists of tokens that
form a disjunction, with the expression that they stand for; there is only one, and its chains have
two or more parts and its negations one. Every other text is an invalid expression. -/
theorem ofText_exact (text : String) :
    (∀ e, ofText text = .ok e ↔
      ∃ ts, Token.scan text.toList = .ok ts ∧ Derives .disjunction ts e) ∧
    (∀ ts e e', Derives .disjunction ts e → Derives .disjunction ts e' → e = e') ∧
    (∀ e, ofText text = .ok e → Shaped e) ∧
    ((∀ e, ofText text ≠ .ok e) → ∃ fault, ofText text = .error (.invalidExpression fault)) := by
  refine ⟨fun e => ofText_eq_ok_iff.trans parse_eq_ok_iff, fun ts e e' => Derives.unique, ?_, ?_⟩
  · intro e h
    obtain ⟨ts, -, hts⟩ := parse_eq_ok_iff.1 (ofText_eq_ok_iff.1 h)
    exact hts.shaped
  · intro h
    cases hp : parse text with
    | ok e => exact absurd (ofText_eq_ok_iff.2 hp) (h e)
    | error fault => exact ⟨fault, by rw [ofText, hp]; rfl⟩

end Expr

end WideColumn
