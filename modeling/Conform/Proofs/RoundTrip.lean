import Conform.Markup.Load
import Conform.Proofs.Markup.Composing
import Conform.Proofs.Markup.Outlines

/-!
# Writing a record and reading it again

The way there and back, put together from its stages: a proper record is written as a source, the
source is read as the tokens of the record, the tokens are composed to nodes that spell what was
read, and the nodes have objects with that outline (`load_dump`). So a record comes back as it was
exactly if no backslash strays into one of its strings on the way (`comes_back_iff`); one strays into
a string deep inside of lists (`deep_string_comes_back_changed`).
-/

namespace Conform

open Markup

namespace Record

/-! ## 1. The way there and back -/

mutual

/-- A proper record has only numbers that can be written. -/
theorem isWritable_value : ∀ {r : Record}, r.Proper → isWritable r.value = true
  | .atom (.int _) => fun h => h
  | .atom .null => fun _ => rfl
  | .atom (.bool _) => fun _ => rfl
  | .atom (.float _) => fun _ => rfl
  | .atom (.str _) => fun _ => rfl
  | .atom (.bytes _) => fun _ => rfl
  | .atom (.day _) => fun _ => rfl
  | .atom (.moment _) => fun _ => rfl
  | .list _ => fun h => isWritableAll_values h
  | .map _ => fun h => isWritableEntries_values h.2

theorem isWritableAll_values : ∀ {rs : List Record}, ProperAll rs →
    isWritableAll (values rs) = true
  | [] => fun _ => rfl
  | _ :: _ => fun h => Bool.and_eq_true_iff.mpr ⟨isWritable_value h.1, isWritableAll_values h.2⟩

theorem isWritableEntries_values : ∀ {es : List (Atom × Record)}, ProperEntries es →
    isWritableEntries (valueEntries es) = true
  | [] => fun _ => rfl
  | (k, _) :: _ => fun ⟨hk, _, hr, hes⟩ => by
      have hkey : isWritable (Record.atom k).value = true := isWritable_value (r := .atom k) hk
      rw [valueEntries, isWritableEntries]
      exact Bool.and_eq_true_iff.mpr ⟨Bool.and_eq_true_iff.mpr ⟨hkey, isWritable_value hr⟩,
        isWritableEntries_values hes⟩

end

/-- **A proper record can be written and read**, and what is read is known. -/
theorem load_dump {r : Record} (hr : r.Proper) : ∃ text d, r.value.dump = .ok text ∧
    load text = .ok (some d) ∧
      d.graph.outline d.root = (r.reread false none).gathered.value.outline := by
  obtain ⟨hsource, htokens⟩ := tokensOf_print hr
  obtain ⟨nodes, hcompose, hspells⟩ := Composition.compose_documentTokens hr
  obtain ⟨d, there, hdocument, hroot, hthere, hpictures⟩ := document_spec ⟨_, hspells⟩
  refine ⟨print r.written, d, ?_, ?_, ?_⟩
  · rw [Value.dump, if_pos (isWritable_value hr), ofValue_value]
  · rw [load, hsource]
    simp only [htokens, hcompose, ok_bind, hdocument]
    rfl
  · rw [hroot]
    exact outlineWithin_eq hpictures hspells hthere (Nat.le_refl 0) fun _ h => absurd h List.not_mem_nil

/-- **A record comes back as it was exactly if it is steady.** It always can be written and read;
    what can happen is that a backslash strays into a string between double quotes, at an indentation
    as wide as a line may be. -/
theorem comes_back_iff {r : Record} (hr : r.Proper) :
    (∃ text d, r.value.dump = .ok text ∧ load text = .ok (some d) ∧
      d.graph.outline d.root = r.value.outline) ↔ r.Steady false none := by
  obtain ⟨text, d, hdump, hload, houtline⟩ := load_dump hr
  rw [← gathered_reread_eq_iff false none hr]
  constructor
  · rintro ⟨text', d', hdump', hload', houtline'⟩
    obtain rfl : text = text' := Except.ok.inj (hdump.symm.trans hdump')
    obtain rfl : d = d' := Option.some.inj (Except.ok.inj (hload.symm.trans hload'))
    exact eq_of_outline (houtline.symm.trans houtline')
  · intro heq
    exact ⟨text, d, hdump, hload, by rw [houtline, heq]⟩

/-- A mapping with a key that is no string, and a string that has to be escaped. -/
def sample : Record :=
  .map [(.int 7, .atom (.bool true)),
    (.null, .list [.atom (.str (Text.ofChars "a\x01 b c".toList)), .list []])]

theorem sample_comes_back : ∃ text d, sample.value.dump = .ok text ∧ load text = .ok (some d) ∧
    d.graph.outline d.root = sample.value.outline := by
  have hkeys : Distinct Atom.sameKey [(Atom.int 7, Record.atom (.bool true)),
      (.null, .list [.atom (.str (Text.ofChars "a\x01 b c".toList)), .list []])] := by
    simp [Distinct, Atom.sameKey, Atom.keyClass]
  have hnumber : (Atom.int 7).Proper := by
    have hlimit : 1 ≤ Numeral.digitLimit := by decide
    rw [Atom.Proper, Numeral.isWritable]
    generalize Numeral.digitLimit = limit at hlimit ⊢
    exact decide_eq_true (Nat.lt_of_lt_of_le (by decide : 7 < 10 ^ 1)
      (Nat.pow_le_pow_right (by decide) hlimit))
  have hstring : (Atom.str (Text.ofChars "a\x01 b c".toList)).Proper :=
    (by decide : CodePoint.char '\x85' ∉ Text.ofChars "a\x01 b c".toList)
  have hproper : sample.Proper :=
    ⟨hkeys, hnumber, trivial, trivial, trivial, trivial, ⟨hstring, trivial, trivial⟩, trivial⟩
  have hsteady : sample.Steady false none := by
    have hnarrow : ∀ (a : Atom) (folds : Bool) (n : Nat), n < width → a.Steady folds n :=
      fun a folds n hn t _ _ _ hwide => absurd hwide (Nat.not_le.mpr hn)
    exact ⟨hnarrow _ _ _ (by decide), hnarrow _ _ _ (by decide), hnarrow _ _ _ (by decide),
      ⟨hnarrow _ _ _ (by decide), trivial, trivial⟩, trivial⟩
  exact (comes_back_iff hproper).mpr hsteady

/-! ## 2. Strings deep inside -/

/-- A record inside of so many lists. -/
def nested : Nat → Record → Record
  | 0, r => r
  | n + 1, r => .list [nested n r]

theorem proper_nested {r : Record} (h : r.Proper) : ∀ n, (nested n r).Proper
  | 0 => h
  | n + 1 => ⟨proper_nested h n, trivial⟩

theorem reread_nested (r : Record) : ∀ (n column : Nat),
    (nested n r).reread false (some column) = nested n (r.reread false (some (column + 2 * n)))
  | 0, _ => rfl
  | n + 1, column => by
      rw [nested, reread, rereadAll, rereadAll, listColumn, blockIndent, if_neg Bool.false_ne_true,
        reread_nested r n, nested, Nat.mul_succ, Nat.add_assoc, Nat.add_comm 2]

theorem gathered_nested (r : Record) : ∀ n, (nested n r).gathered = nested n r.gathered
  | 0 => rfl
  | n + 1 => by
      rw [nested, gathered, gatheredAll, gatheredAll, gathered_nested r n]
      rfl

theorem nested_inj {r s : Record} : ∀ {n : Nat}, nested n r = nested n s → r = s
  | 0, h => h
  | _ + 1, h => nested_inj (List.cons.inj (Record.list.inj h)).1

/-- The entries of a list inside of lists are indented by two columns for each. -/
theorem load_dump_nested {a : Atom} (ha : a.Proper) (n : Nat) :
    ∃ text d, (nested (n + 1) (.atom a)).value.dump = .ok text ∧ load text = .ok (some d) ∧
      d.graph.outline d.root =
        (nested (n + 1) (.atom (a.reread true (2 * n + 2)))).value.outline := by
  obtain ⟨text, d, hdump, hload, houtline⟩ := load_dump (proper_nested (r := .atom a) ha (n + 1))
  refine ⟨text, d, hdump, hload, ?_⟩
  have hreread : ((nested (n + 1) (.atom a)).reread false none).gathered =
      nested (n + 1) (.atom (a.reread true (2 * n + 2))) := by
    have hinner := reread_nested (.atom a) n 0
    rw [nested, reread, rereadAll, rereadAll, listColumn, blockIndent, if_neg Bool.false_ne_true,
      hinner, Nat.zero_add]
    exact gathered_nested _ (n + 1)
  rw [houtline, hreread]

/-- A string that has to be escaped, with a space behind the escape and more behind that. -/
def escaped : Text :=
  Text.ofChars "a\x01 b c".toList

/-- **A string inside of forty lists comes back with a backslash and a space more.** -/
theorem deep_string_comes_back_changed :
    (nested 40 (.atom (.str escaped))).Proper ∧
      ∃ text d, (nested 40 (.atom (.str escaped))).value.dump = .ok text ∧
        load text = .ok (some d) ∧
        d.graph.outline d.root =
          (nested 40 (.atom (.str (Text.ofChars "a\x01\\  b c".toList)))).value.outline ∧
        d.graph.outline d.root ≠ (nested 40 (.atom (.str escaped))).value.outline := by
  have hproper : (Atom.str escaped).Proper :=
    (by decide : CodePoint.char '\x85' ∉ escaped)
  have hreread : (Atom.str escaped).reread true (2 * 39 + 2) =
      .str (Text.ofChars "a\x01\\  b c".toList) := by
    decide
  obtain ⟨text, d, hdump, hload, houtline⟩ := load_dump_nested hproper 39
  rw [hreread] at houtline
  refine ⟨proper_nested (r := .atom (.str escaped)) hproper 40, text, d, hdump, hload, houtline, fun h => ?_⟩
  have heq := nested_inj (eq_of_outline (houtline.symm.trans h))
  exact absurd (Record.atom.inj heq) (by decide)

end Record

end Conform
