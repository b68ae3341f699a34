import WideColumn.Error
import WideColumn.Json.Read
import WideColumn.Record.Row

/-!
# Sort keys

Rows are ordered by the values of their keys alone: the names of the columns do not count.
Integers come before text and text before bytes, and the two bounds of a range enclose them all;
of two keys that agree as far as the shorter goes, the shorter comes first.

`KeyPart` is lawfully ordered, so that keys can serve as keys of a `SortedMap`.
-/

namespace WideColumn

/-- The value of a key column in the form that is compared. -/
inductive KeyPart where
  /-- Below all others. -/
  | low
  /-- An integer. -/
  | integer (n : Int64)
  /-- Text, ordered by code points. -/
  | string (s : String)
  /-- Bytes. -/
  | binary (bs : Bytes)
  /-- Above all others. -/
  | high
deriving DecidableEq, Inhabited

namespace KeyPart

/-- The order of the constructors. -/
def rank : KeyPart → Nat
  | low => 0
  | integer _ => 1
  | string _ => 2
  | binary _ => 3
  | high => 4

instance : Ord KeyPart where
  compare
    | integer m, integer n => compare m n
    | string s, string t => compare s t
    | binary bs, binary cs => compare bs cs
    | a, b => compare a.rank b.rank

theorem compare_of_rank_ne {a b : KeyPart} (h : a.rank ≠ b.rank) :
    compare a b = compare a.rank b.rank := by
  cases a <;> cases b <;> first | rfl | exact absurd rfl h

theorem rank_le_of_isLE {a b : KeyPart} (h : (compare a b).isLE) : a.rank ≤ b.rank := by
  by_cases hr : a.rank = b.rank
  · exact Nat.le_of_eq hr
  · rw [compare_of_rank_ne hr] at h
    exact Nat.isLE_compare.1 h

instance : Std.OrientedOrd KeyPart where
  eq_swap {a b} := by
    by_cases hr : a.rank = b.rank
    · cases a <;> cases b <;> first | rfl | (simp [rank] at hr; done) | skip
      · next m n => exact (Std.OrientedCmp.eq_swap : compare m n = (compare n m).swap)
      · next s t => exact (Std.OrientedCmp.eq_swap : compare s t = (compare t s).swap)
      · next bs cs => exact (Std.OrientedCmp.eq_swap : compare bs cs = (compare cs bs).swap)
    · rw [compare_of_rank_ne hr, compare_of_rank_ne (Ne.symm hr)]
      exact Std.OrientedCmp.eq_swap

instance : Std.TransOrd KeyPart where
  isLE_trans {a b c} hab hbc := by
    have h₁ := rank_le_of_isLE hab
    have h₂ := rank_le_of_isLE hbc
    by_cases hr : a.rank = c.rank
    · have hb : a.rank = b.rank := by omega
      have hc : b.rank = c.rank := by omega
      cases a <;> cases b <;> first | (simp [rank] at hb; done) | skip
      all_goals cases c <;> first | (simp [rank] at hc; done) | skip
      · exact hab
      · next l m n =>
        exact (Std.TransOrd.isLE_trans :
          (compare l m).isLE → (compare m n).isLE → (compare l n).isLE) hab hbc
      · next r s t =>
        exact (Std.TransOrd.isLE_trans :
          (compare r s).isLE → (compare s t).isLE → (compare r t).isLE) hab hbc
      · next bs cs ds =>
        exact (Std.TransOrd.isLE_trans :
          (compare bs cs).isLE → (compare cs ds).isLE → (compare bs ds).isLE) hab hbc
      · exact hab
    · rw [compare_of_rank_ne hr]
      exact Nat.isLE_compare.2 (Nat.le_trans h₁ h₂)

instance : Std.LawfulEqOrd KeyPart where
  eq_of_compare {a b} h := by
    by_cases hr : a.rank = b.rank
    · cases a <;> cases b <;> first
        | rfl
        | (simp [rank] at hr; done)
        | exact congrArg _ (Std.LawfulEqOrd.eq_of_compare h)
    · rw [compare_of_rank_ne hr] at h
      exact absurd (Std.LawfulEqOrd.eq_of_compare h) hr

end KeyPart

/-- What rows are ordered by. -/
abbrev SortKey := List KeyPart

namespace KeyValue

/-- The value in the form that is compared. A number to come has no place in the order. -/
def sortPart : KeyValue → Except ServiceError KeyPart
  | infMin => .ok .low
  | integer n => .ok (.integer n)
  | string s => .ok (.string s)
  | binary bs => .ok (.binary bs)
  | infMax => .ok .high
  | autoIncrement =>
    .error (.parameterInvalid "auto-increment placeholder is only allowed on put")

end KeyValue

namespace Key

/-- The place of a key in the order of rows. -/
def sortKey (k : Key) : Except ServiceError SortKey := k.mapM fun c => c.value.sortPart

/-- A key as the token of a continuation: the bytes of its JSON. -/
def toToken (k : Key) : Bytes := (encode k : Json).text.toUTF8.toList

/-- The key of a token. Null has no place in a key, so what is taken for null for want of a value
does no harm where the key is not concerned and is refused where it is. -/
def ofToken (token : Bytes) : Except ServiceError Key :=
  let key? : Option Key := do
    let j ← Json.ofBytes? .asNull token
    (decode j : Except DecodeFault Key).toOption
  match key? with
  | some k => .ok k
  | none => .error (.parameterInvalid "malformed range token")

end Key

end WideColumn
