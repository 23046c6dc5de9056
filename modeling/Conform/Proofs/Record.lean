import Conform.Markup.Print
import Conform.Proofs.Keys
import Conform.Proofs.Markup.Scalar.Double
import Conform.Proofs.Markup.Style

/-!
# Records that are written and read again

A record as a tree of atoms, lists and mappings with atoms as keys: the values without floats, sets
and tuples that share nothing. This file fixes which of them are put into a document, what is read
there (`reread`) and made of it (`gathered`), and which come back as they were (`Steady`). Only one
thing can go wrong: a string between double quotes, at an indentation as wide as a line may be, into
which a backslash strays.
-/

namespace Conform

/-! ## 1. Records -/

/-- A record whose mappings have atoms as keys. -/
inductive Record where
  | atom (a : Atom)
  | list (items : List Record)
  | map (entries : List (Atom × Record))
  deriving Inhabited

/-- An atom that a document can hold: no float, no integer with too many digits, no string with a
    next-line control. -/
def Atom.Proper : Atom → Prop
  | .float _ => False
  | .int i => Numeral.isWritable i = true
  | .str t => .char '\x85' ∉ t
  | _ => True

/-- A string that is no longer than keys may be. -/
def Atom.Brief : Atom → Prop
  | .str t => t.length ≤ 100
  | _ => True

namespace Record

mutual

/-- A record as a value. -/
def value : Record → Value
  | .atom a => .atom () a
  | .list items => .list () (values items)
  | .map entries => .map () (valueEntries entries)

/-- Records as values. -/
def values : List Record → List Value
  | [] => []
  | r :: rs => value r :: values rs

/-- Pairs of records as pairs of values. -/
def valueEntries : List (Atom × Record) → List (Value × Value)
  | [] => []
  | (k, r) :: es => (.atom () k, value r) :: valueEntries es

end

mutual

/-- A record that a document can hold: its atoms are proper, and the keys of a mapping are brief
    and no two of them the same. -/
def Proper : Record → Prop
  | .atom a => a.Proper
  | .list items => ProperAll items
  | .map entries => Distinct Atom.sameKey entries ∧ ProperEntries entries

/-- Records that a document can hold. -/
def ProperAll : List Record → Prop
  | [] => True
  | r :: rs => Proper r ∧ ProperAll rs

/-- Pairs that a document can hold. -/
def ProperEntries : List (Atom × Record) → Prop
  | [] => True
  | (k, r) :: es => k.Proper ∧ k.Brief ∧ Proper r ∧ ProperEntries es

end

end Record

/-! ## 2. Where a record stands -/

namespace Markup

/-- The column of the entries of a list inside a collection at a column. A loose one is the value
    behind a colon on its line; it is not indented. -/
def listColumn (loose : Bool) (column : Option Nat) : Nat :=
  if loose then column.getD 0 else blockIndent column

/-- Is an atom written in front of its colon? -/
def isShortAtom (a : Atom) : Bool :=
  (atomKeyLength? a).any (· < 128)

end Markup

/-! ## 3. What comes back -/

open Markup

/-- An atom as it comes back from a scalar at an indentation. -/
def Atom.reread (folds : Bool) (indent : Nat) : Atom → Atom
  | .str t =>
    match Style.ofText t with
    | .double _ => .str (returned folds indent true t)
    | _ => .str t
  | a => a

/-- No backslash strays into an atom at an indentation. -/
def Atom.Steady (folds : Bool) (indent : Nat) (a : Atom) : Prop :=
  ∀ t, a = .str t → Style.ofText t = .double t → folds = true → width ≤ indent → ¬ Strays t

theorem Atom.reread_eq_iff {folds : Bool} {indent : Nat} {a : Atom} :
    a.reread folds indent = a ↔ a.Steady folds indent := by
  cases a with
  | str t =>
    have hsteady : (Atom.str t).Steady folds indent ↔
        (Style.ofText t = .double t → folds = true → width ≤ indent → ¬ Strays t) :=
      ⟨fun h => h t rfl, fun h u hu => by cases hu; exact h⟩
    rw [hsteady, Atom.reread]
    rcases Style.ofText_cases t with ⟨cs, -, hstyle, -⟩ | ⟨cs, -, hstyle, -⟩ | hstyle
    · rw [hstyle]
      exact ⟨fun _ h => (nomatch h), fun _ => rfl⟩
    · rw [hstyle]
      exact ⟨fun _ h => (nomatch h), fun _ => rfl⟩
    · simp only [hstyle, Atom.str.injEq, returned]
      by_cases hwide : (folds && width ≤ indent) = true
      · rw [if_pos hwide, strayed_eq_iff]
        rw [Bool.and_eq_true, decide_eq_true_eq] at hwide
        simp [hwide.1, hwide.2]
      · rw [if_neg hwide]
        refine ⟨fun _ _ hf hn => absurd ?_ hwide, fun _ => rfl⟩
        simp [hf, hn]
  | _ => exact ⟨fun _ t ht => (by cases ht), fun _ => rfl⟩

namespace Record

mutual

/-- A record as it is read inside a collection at a column. -/
def reread (loose : Bool) (column : Option Nat) : Record → Record
  | .atom a => .atom (a.reread true (scalarIndent column))
  | .list items => .list (rereadAll (listColumn loose column) items)
  | .map entries => .map (rereadEntries (blockIndent column) entries)

/-- The entries of a list at a column as they are read. -/
def rereadAll (column : Nat) : List Record → List Record
  | [] => []
  | r :: rs => reread false (some column) r :: rereadAll column rs

/-- The pairs of a mapping at a column as they are read. A key in front of its colon is not
    folded. -/
def rereadEntries (column : Nat) : List (Atom × Record) → List (Atom × Record)
  | [] => []
  | (k, r) :: es =>
    (k.reread (!isShortAtom k) (scalarIndent (some column)),
      reread (isShortAtom k) (some column) r) :: rereadEntries column es

end

mutual

/-- No backslash strays into a record inside a collection at a column. -/
def Steady (loose : Bool) (column : Option Nat) : Record → Prop
  | .atom a => a.Steady true (scalarIndent column)
  | .list items => SteadyAll (listColumn loose column) items
  | .map entries => SteadyEntries (blockIndent column) entries

/-- No backslash strays into the entries of a list at a column. -/
def SteadyAll (column : Nat) : List Record → Prop
  | [] => True
  | r :: rs => Steady false (some column) r ∧ SteadyAll column rs

/-- No backslash strays into the pairs of a mapping at a column. -/
def SteadyEntries (column : Nat) : List (Atom × Record) → Prop
  | [] => True
  | (k, r) :: es =>
    k.Steady (!isShortAtom k) (scalarIndent (some column)) ∧
      Steady (isShortAtom k) (some column) r ∧ SteadyEntries column es

end

mutual

/-- A record whose mappings are made of the pairs that were read. -/
def gathered : Record → Record
  | .atom a => .atom a
  | .list items => .list (gatheredAll items)
  | .map entries => .map (gatherPairs Atom.sameKey (gatheredEntries entries))

/-- Records whose mappings are made of the pairs that were read. -/
def gatheredAll : List Record → List Record
  | [] => []
  | r :: rs => gathered r :: gatheredAll rs

/-- Pairs of records whose mappings are made of the pairs that were read. -/
def gatheredEntries : List (Atom × Record) → List (Atom × Record)
  | [] => []
  | (k, r) :: es => (k, gathered r) :: gatheredEntries es

end

theorem length_gatheredEntries (column : Nat) : ∀ es : List (Atom × Record),
    (gatheredEntries (rereadEntries column es)).length = es.length
  | [] => rfl
  | (_, _) :: es => congrArg Nat.succ (length_gatheredEntries column es)

mutual

/-- **A record comes back exactly if no backslash strays into it.** -/
theorem gathered_reread_eq_iff (loose : Bool) (column : Option Nat) : ∀ {r : Record}, r.Proper →
    ((r.reread loose column).gathered = r ↔ r.Steady loose column)
  | .atom a => fun _ => by
      rw [reread, gathered, Steady, Record.atom.injEq, Atom.reread_eq_iff]
  | .list items => fun h => by
      rw [reread, gathered, Steady, Record.list.injEq]
      exact gatheredAll_rereadAll_eq_iff _ h
  | .map entries => fun h => by
      have hentries := gatheredEntries_rereadEntries_eq_iff (blockIndent column) h.2
      rw [reread, gathered, Steady, Record.map.injEq, ← hentries]
      constructor
      · intro heq
        have hlength := length_gatheredEntries (blockIndent column) entries
        rw [← gatherPairs_of_length ((congrArg List.length heq).trans hlength.symm), heq]
      · intro heq
        rw [heq]
        exact gatherPairs_of_distinct h.1

theorem gatheredAll_rereadAll_eq_iff (column : Nat) : ∀ {rs : List Record}, ProperAll rs →
    (gatheredAll (rereadAll column rs) = rs ↔ SteadyAll column rs)
  | [] => fun _ => ⟨fun _ => trivial, fun _ => rfl⟩
  | r :: rs => fun h => by
      rw [rereadAll, gatheredAll, SteadyAll, List.cons.injEq,
        gathered_reread_eq_iff false (some column) h.1, gatheredAll_rereadAll_eq_iff column h.2]

theorem gatheredEntries_rereadEntries_eq_iff (column : Nat) : ∀ {es : List (Atom × Record)},
    ProperEntries es →
    (gatheredEntries (rereadEntries column es) = es ↔ SteadyEntries column es)
  | [] => fun _ => ⟨fun _ => trivial, fun _ => rfl⟩
  | (k, r) :: es => fun ⟨_, _, hr, hes⟩ => by
      rw [rereadEntries, gatheredEntries, SteadyEntries, List.cons.injEq, Prod.mk.injEq,
        Atom.reread_eq_iff, gathered_reread_eq_iff _ _ hr,
        gatheredEntries_rereadEntries_eq_iff column hes, and_assoc]

end

end Record

end Conform
