import Mathlib.Data.List.TakeWhile
import Conform.Proofs.Logging

/-!
# Which records get through

Once logging has been configured, however often and whatever was there before, only the last call
counts. A record then passes the threshold of the nearest logger with a level at or above its own,
and the one handler of the root. Above a dotted name stand the names in front of its points
(`mem_ancestors_iff`), and of those only one can be a logger with a level, so a single number says
for every name which records are shown, and each of them is shown once (`last_call_decides`).
-/

namespace Conform.Logging

/-! ## 1. Names above a name -/

/-- Does a name lie below another one? Behind the other one stands a point. If several points
    follow each other, every second one counts, from the last one back. -/
def LiesBelow (above name : List Char) : Prop :=
  ∃ (k : Nat) (rest : List Char),
    name = above ++ List.replicate (2 * k + 1) '.' ++ rest ∧ rest.head? ≠ some '.'

theorem parent?_of_plain {name : List Char} (h : '.' ∉ name) : parent? name = none := by
  have hnil : name.reverse.dropWhile (· != '.') = [] :=
    List.dropWhile_eq_nil_iff.mpr fun c hc =>
      bne_iff_ne.mpr fun e => h (e ▸ List.mem_reverse.mp hc)
  rw [parent?, hnil]

theorem dropWhile_reverse (front : List Char) {rest : List Char} (h : '.' ∉ rest) :
    (front ++ '.' :: rest).reverse.dropWhile (· != '.') = '.' :: front.reverse := by
  have hrest : ∀ c ∈ rest.reverse, (c != '.') = true := fun c hc =>
    bne_iff_ne.mpr fun e => h (e ▸ List.mem_reverse.mp hc)
  rw [List.reverse_append, List.reverse_cons, List.append_assoc, List.dropWhile_append_of_pos hrest]
  rfl

theorem parent?_append (front : List Char) {rest : List Char} (h : '.' ∉ rest) :
    parent? (front ++ '.' :: rest) = if front = [] then none else some front := by
  rw [parent?, dropWhile_reverse front h]
  simp

theorem exists_last_point {name : List Char} (h : '.' ∈ name) :
    ∃ front rest, name = front ++ '.' :: rest ∧ '.' ∉ rest := by
  obtain ⟨before, behind, heq, hno⟩ := List.eq_append_cons_of_mem (List.mem_reverse.mpr h)
  refine ⟨behind.reverse, before.reverse, ?_, by simpa using hno⟩
  rw [← List.reverse_reverse name, heq]
  simp

/-- A list is split at its last point in one way. -/
theorem split_last_point {front front' rest rest' : List Char} (h : '.' ∉ rest) (h' : '.' ∉ rest')
    (heq : front ++ '.' :: rest = front' ++ '.' :: rest') : front = front' ∧ rest = rest' := by
  have hfront : '.' :: front.reverse = '.' :: front'.reverse := by
    rw [← dropWhile_reverse front h, heq, dropWhile_reverse front' h']
  obtain rfl : front = front' := List.reverse_injective (List.cons.inj hfront).2
  exact ⟨rfl, (List.cons.inj (List.append_cancel_left heq)).2⟩

theorem LiesBelow.step {above front : List Char} (h : LiesBelow above front) (c : Char)
    (rest : List Char) (hrest : '.' ∉ rest) : LiesBelow above (front ++ c :: '.' :: rest) := by
  obtain ⟨k, more, rfl, hmore⟩ := h
  match more with
  | [] =>
    by_cases hc : c = '.'
    · subst hc
      refine ⟨k + 1, rest, ?_, fun h => hrest (List.mem_of_mem_head? h)⟩
      have hrun : List.replicate (2 * (k + 1) + 1) '.' =
          List.replicate (2 * k + 1) '.' ++ ['.', '.'] := by
        rw [Nat.mul_succ, Nat.add_right_comm, List.replicate_add]
        rfl
      rw [hrun]
      simp
    · exact ⟨k, c :: '.' :: rest, by simp, by simpa using hc⟩
  | d :: more => exact ⟨k, d :: more ++ c :: '.' :: rest, by simp, by simpa using hmore⟩

/-- The name above is in front of the last point, or above what is in front of that. -/
theorem liesBelow_append_iff {above front rest : List Char} (hrest : '.' ∉ rest)
    (hfront : front ≠ []) :
    LiesBelow above (front ++ '.' :: rest) ↔ above = front ∨ LiesBelow above front.dropLast := by
  constructor
  · rintro ⟨k, more, heq, hmore⟩
    by_cases hpoint : '.' ∈ more
    · obtain ⟨inner, last, rfl, hlast⟩ := exists_last_point hpoint
      rw [← List.append_assoc] at heq
      obtain ⟨rfl, -⟩ := split_last_point hrest hlast heq
      refine .inr ⟨k, inner.dropLast, ?_, ?_⟩
      · rw [List.dropLast_append_of_ne_nil]
        rintro rfl
        exact hmore rfl
      · match inner with
        | [] => exact fun h => by cases h
        | [c] => exact fun h => by cases h
        | c :: d :: inner => simpa using hmore
    · have hrun : List.replicate (2 * k + 1) '.' = List.replicate (2 * k) '.' ++ ['.'] :=
        List.replicate_succ'
      rw [hrun, ← List.append_assoc, List.append_assoc] at heq
      obtain ⟨rfl, -⟩ := split_last_point hrest hpoint heq
      cases k with
      | zero => exact .inl (List.append_nil above).symm
      | succ k =>
        refine .inr ⟨k, [], ?_, fun h => by cases h⟩
        rw [List.append_nil, List.dropLast_append_of_ne_nil (by simp), List.dropLast_replicate]
        rfl
  · rintro (rfl | h)
    · exact ⟨0, rest, by simp, fun h => hrest (List.mem_of_mem_head? h)⟩
    · have hback : front ++ '.' :: rest =
          front.dropLast ++ front.getLast hfront :: '.' :: rest := by
        conv_lhs => rw [← List.dropLast_append_getLast hfront]
        simp
      rw [hback]
      exact h.step _ rest hrest

theorem not_liesBelow_of_plain {above name : List Char} (h : '.' ∉ name) :
    ¬ LiesBelow above name := by
  rintro ⟨k, rest, rfl, -⟩
  simp at h

/-- What is in front of the first point is all that can lie above and have no point. -/
theorem LiesBelow.takeWhile_eq {above name : List Char} (habove : '.' ∉ above)
    (h : LiesBelow above name) : name.takeWhile (· != '.') = above := by
  obtain ⟨k, rest, rfl, -⟩ := h
  have hinside : ∀ c ∈ above, (c != '.') = true := fun c hc =>
    bne_iff_ne.mpr fun e => habove (e ▸ hc)
  rw [List.append_assoc, List.takeWhile_append_of_pos hinside, List.replicate_succ]
  simp

theorem mem_ancestorsFrom_iff {above : List Char} (hplain : '.' ∉ above) (hne : above ≠ []) :
    ∀ (n : Nat) (name : List Char), name.length ≤ n →
      (String.ofList above ∈ ancestorsFrom n name ↔ LiesBelow above name)
  | 0, name, hn => by
      obtain rfl : name = [] := List.eq_nil_of_length_eq_zero (Nat.le_zero.mp hn)
      exact iff_of_false List.not_mem_nil (not_liesBelow_of_plain List.not_mem_nil)
  | n + 1, name, hn => by
      rw [ancestorsFrom]
      by_cases hpoint : '.' ∈ name
      · obtain ⟨front, rest, rfl, hrest⟩ := exists_last_point hpoint
        rw [parent?_append front hrest]
        by_cases hfront : front = []
        · subst hfront
          refine iff_of_false List.not_mem_nil fun h => hne ?_
          rw [← h.takeWhile_eq hplain]
          simp
        · have hlength : front.dropLast.length ≤ n := by
            simp only [List.length_append, List.length_cons, List.length_dropLast] at hn ⊢
            omega
          rw [if_neg hfront, liesBelow_append_iff hrest hfront, List.mem_cons,
            mem_ancestorsFrom_iff hplain hne n front.dropLast hlength, String.ofList_inj]
      · rw [parent?_of_plain hpoint]
        exact iff_of_false List.not_mem_nil (not_liesBelow_of_plain hpoint)

/-- **The names above a name are those that it lies below**, as far as they have no points
    themselves. -/
theorem mem_ancestors_iff {above name : String} (hplain : '.' ∉ above.toList)
    (hne : above.toList ≠ []) :
    above ∈ ancestors name ↔ LiesBelow above.toList name.toList := by
  have h := mem_ancestorsFrom_iff hplain hne name.length name.toList (Nat.le_refl _)
  rwa [String.ofList_toList] at h

/-! ## 2. Thresholds of arbitrary names -/

/-- The name of a logger, or one below it. -/
def IsAtOrBelow (name above : String) : Prop :=
  name = above ∨ LiesBelow above.toList name.toList

/-- The loggers that have a level of their own once logging is configured. -/
def levelledNames : List String :=
  packageName :: noisyNames

theorem plain_of_mem_levelledNames {n : String} (h : n ∈ levelledNames) :
    '.' ∉ n.toList ∧ n.toList ≠ [] := by
  simp only [levelledNames, packageName, noisyNames, List.mem_cons, List.not_mem_nil,
    or_false] at h
  rcases h with rfl | rfl | rfl <;> decide

theorem mem_above_iff {n : String} (h : n ∈ levelledNames) (name : String) :
    n ∈ name :: ancestors name ↔ IsAtOrBelow name n := by
  obtain ⟨hplain, hne⟩ := plain_of_mem_levelledNames h
  rw [List.mem_cons, mem_ancestors_iff hplain hne, IsAtOrBelow, eq_comm]

/-- The logger is named by what is in front of the first point. -/
theorem IsAtOrBelow.takeWhile_eq {name n : String} (hn : n ∈ levelledNames)
    (h : IsAtOrBelow name n) : name.toList.takeWhile (· != '.') = n.toList := by
  obtain ⟨hplain, -⟩ := plain_of_mem_levelledNames hn
  rcases h with rfl | hbelow
  · exact List.takeWhile_eq_self_iff.mpr fun c hc => bne_iff_ne.mpr fun e => hplain (e ▸ hc)
  · exact hbelow.takeWhile_eq hplain

/-- No name stands below two of these loggers. -/
theorem IsAtOrBelow.unique {name m n : String} (hm : m ∈ levelledNames) (hn : n ∈ levelledNames)
    (h : IsAtOrBelow name m) (h' : IsAtOrBelow name n) : m = n :=
  String.toList_injective ((h.takeWhile_eq hm).symm.trans (h'.takeWhile_eq hn))

/-- Loggers as they come about: those of the library and the noisy ones are there, and nobody has
    given a level to another one. -/
structure Standing (l : Logging) : Prop where
  known : ∀ n ∈ levelledNames, (l.logger? n).isSome
  others : ∀ x ∈ l.others, x.name ∉ levelledNames → x.level = 0

/-- The level that a logger lets records through from, if it has one of its own. -/
def ownLevel? (l : Logging) (name : String) : Option Nat :=
  (l.logger? name).bind fun x => if x.level = 0 then none else some x.level

theorem threshold_eq (l : Logging) (name : String) :
    l.threshold name = (((name :: ancestors name).filterMap l.ownLevel?).head?).getD l.root.level :=
  rfl

theorem threshold_of_mem {l : Logging} {name n : String} {level : Nat}
    (hn : n ∈ name :: ancestors name) (hlevel : l.ownLevel? n = some level)
    (hothers : ∀ m ∈ name :: ancestors name, ∀ v, l.ownLevel? m = some v → v = level) :
    l.threshold name = level := by
  have hmem : level ∈ (name :: ancestors name).filterMap l.ownLevel? :=
    List.mem_filterMap.mpr ⟨n, hn, hlevel⟩
  rw [threshold_eq]
  cases hfound : (name :: ancestors name).filterMap l.ownLevel? with
  | nil =>
    rw [hfound] at hmem
    exact absurd hmem List.not_mem_nil
  | cons v vs =>
    obtain ⟨m, hm, hv⟩ := List.mem_filterMap.mp (hfound ▸ List.mem_cons_self : v ∈ _)
    exact hothers m hm v hv

theorem threshold_of_none {l : Logging} {name : String}
    (h : ∀ n ∈ name :: ancestors name, l.ownLevel? n = none) : l.threshold name = l.root.level := by
  rw [threshold_eq, List.filterMap_eq_nil_iff.mpr h]
  rfl

/-- A level, as the level of a logger: zero is none. -/
def levelOrNone (level : Nat) : Option Nat :=
  if level = 0 then none else some level

/-- Only the library and the noisy loggers have a level after configuring. -/
theorem ownLevel?_atLevel {l : Logging} (h : l.Standing) (level : Nat) (name : String) :
    (l.atLevel level).ownLevel? name =
      if name ∈ noisyNames then some 30
      else if name = packageName then levelOrNone level
      else none := by
  rw [ownLevel?, logger?_atLevel]
  cases hx : l.logger? name with
  | none =>
    have hno : name ∉ levelledNames := fun hn => by
      have := h.known name hn
      rw [hx] at this
      cases this
    rw [if_neg fun hn => hno (List.mem_cons_of_mem _ hn),
      if_neg fun hn => hno (by rw [hn]; exact .head _)]
    rfl
  | some x =>
    have hname : x.name = name := by simpa using List.find?_some hx
    have hmem : x ∈ l.others := List.mem_of_find?_eq_some hx
    simp only [Option.map_some, Option.bind_some, Logger.configured, hname]
    split
    · rfl
    · split
      · rfl
      · have hno : x.name ∉ levelledNames := by
          rw [hname, levelledNames, List.mem_cons, not_or]
          exact ⟨by assumption, by assumption⟩
        rw [if_pos (h.others x hmem hno)]

/-- Records of the noisy loggers and of all below them need to be warnings. -/
theorem threshold_noisy {l : Logging} (h : l.Standing) (level : Nat) {name n : String}
    (hn : n ∈ noisyNames) (hat : IsAtOrBelow name n) : (l.atLevel level).threshold name = 30 := by
  have hlevelled : n ∈ levelledNames := List.mem_cons_of_mem _ hn
  refine threshold_of_mem ((mem_above_iff hlevelled name).mpr hat)
    (by rw [ownLevel?_atLevel h, if_pos hn]) fun m hm v hv => ?_
  rw [ownLevel?_atLevel h] at hv
  by_cases hnoisy : m ∈ noisyNames
  · rw [if_pos hnoisy] at hv
    exact (Option.some.inj hv).symm
  · rw [if_neg hnoisy] at hv
    split at hv
    · rename_i hpackage
      have hm' : m ∈ levelledNames := hpackage ▸ .head _
      exact absurd (hat.unique hlevelled hm' ((mem_above_iff hm' name).mp hm)) fun e =>
        hnoisy (e ▸ hn)
    · cases hv

/-- All other names have the level of the library, or that of the root. -/
theorem max_threshold_of_not_noisy {l : Logging} (h : l.Standing) {level : Nat} {name : String}
    (hlevel : level = 0 ∨ 10 ≤ level) (hquiet : ∀ n ∈ noisyNames, ¬ IsAtOrBelow name n) :
    max level ((l.atLevel level).threshold name) = max level 10 := by
  have hown : ∀ n ∈ name :: ancestors name, (l.atLevel level).ownLevel? n =
      if n = packageName then levelOrNone level else none := fun n hn => by
    rw [ownLevel?_atLevel h, if_neg fun hnoisy =>
      hquiet n hnoisy ((mem_above_iff (List.mem_cons_of_mem _ hnoisy) name).mp hn)]
  by_cases hpackage : packageName ∈ name :: ancestors name ∧ level ≠ 0
  · have hthreshold : (l.atLevel level).threshold name = level := by
      refine threshold_of_mem hpackage.1 ?_ fun m hm v hv => ?_
      · rw [hown _ hpackage.1, if_pos rfl, levelOrNone, if_neg hpackage.2]
      · rw [hown m hm] at hv
        split at hv
        · rw [levelOrNone, if_neg hpackage.2] at hv
          exact (Option.some.inj hv).symm
        · cases hv
    omega
  · have hthreshold : (l.atLevel level).threshold name = (l.atLevel level).root.level := by
      refine threshold_of_none fun n hn => ?_
      rw [hown n hn]
      split
      · rename_i he
        have hzero : level = 0 := Decidable.not_not.mp fun hne => hpackage ⟨he ▸ hn, hne⟩
        rw [levelOrNone, if_pos hzero]
      · rfl
    rw [hthreshold, atLevel_root]

/-! ## 3. Calls one after the other -/

/-- Configures logging again and again. -/
def configureEach (s : Settings) (l : Logging) (calls : List (Option String)) :
    Except LevelFault Logging :=
  calls.foldlM (fun l asked => l.configure s asked) l

/-- Does a call ask for nothing, or for a level that exists? -/
def AsksForLevel (asked : Option String) : Prop :=
  ∀ name, asked = some name → name ∈ levelNames.map (·.1)

/-- The level that a call puts in force. -/
def IsInForce (s : Settings) (asked : Option String) (level : Nat) : Prop :=
  match asked with
  | some name => (name, level) ∈ levelNames
  | none => level = if s.debug then 10 else s.logLevel.level

theorem effective_of_mem (s : Settings) {name : String} {level : Nat}
    (h : (name, level) ∈ levelNames) : effective s (some name) = .ok level := by
  simp only [levelNames, List.mem_cons, Prod.mk.injEq, List.not_mem_nil, or_false] at h
  rcases h with ⟨rfl, rfl⟩ | ⟨rfl, rfl⟩ | ⟨rfl, rfl⟩ | ⟨rfl, rfl⟩ | ⟨rfl, rfl⟩ | ⟨rfl, rfl⟩ |
    ⟨rfl, rfl⟩ | ⟨rfl, rfl⟩ <;> rfl

theorem exists_effective (s : Settings) {asked : Option String} (h : AsksForLevel asked) :
    ∃ level, effective s asked = .ok level ∧ IsInForce s asked level := by
  cases asked with
  | none => exact ⟨s.level, rfl, rfl⟩
  | some name =>
    obtain ⟨⟨_, level⟩, hmem, rfl⟩ := List.mem_map.mp (h name rfl)
    exact ⟨level, effective_of_mem s hmem, hmem⟩

/-- A level in force is none at all, or one from debugging on. -/
theorem IsInForce.level_cases {s : Settings} {asked : Option String} {level : Nat}
    (h : IsInForce s asked level) : level = 0 ∨ 10 ≤ level := by
  match asked with
  | some name =>
    simp only [IsInForce, levelNames, List.mem_cons, Prod.mk.injEq, List.not_mem_nil,
      or_false] at h
    omega
  | none =>
    obtain rfl : level = _ := h
    right
    split
    · exact Nat.le_refl 10
    · cases s.logLevel <;> decide

/-- Whatever was called before, only the last call counts. -/
theorem configureEach_concat {s : Settings} {earlier : List (Option String)} {last : Option String}
    {level : Nat} (hearlier : ∀ asked ∈ earlier, AsksForLevel asked)
    (hlast : effective s last = .ok level) (l : Logging) :
    l.configureEach s (earlier ++ [last]) = .ok (l.atLevel level) := by
  induction earlier generalizing l with
  | nil =>
    rw [List.nil_append, configureEach, List.foldlM_cons, configure, hlast]
    rfl
  | cons asked earlier ih =>
    obtain ⟨hasked, hearlier⟩ := List.forall_mem_cons.mp hearlier
    obtain ⟨before, hbefore, -⟩ := exists_effective s hasked
    have hstep : l.configureEach s (asked :: earlier ++ [last]) =
        (l.atLevel before).configureEach s (earlier ++ [last]) := by
      rw [List.cons_append, configureEach, List.foldlM_cons, configure, hbefore]
      rfl
    rw [hstep, ih hearlier, atLevel_atLevel]

/-! ## 4. What is shown -/

/-- Is the name that of a noisy logger, or below one? -/
def IsNoisy (name : String) : Prop :=
  ∃ n ∈ noisyNames, IsAtOrBelow name n

instance (name : String) : Decidable (IsNoisy name) :=
  decidable_of_iff (∃ n ∈ noisyNames, n ∈ name :: ancestors name)
    (exists_congr fun _ => and_congr_right fun hn =>
      mem_above_iff (List.mem_cons_of_mem _ hn) name)

/-- The level that records of a logger need once a level is in force: that one, and a warning for
    noisy loggers, but at least a debugging record for all others. -/
def needed (level : Nat) (name : String) : Nat :=
  max level (if IsNoisy name then 30 else 10)

theorem isRoot_of_isAtOrBelow {name n : String} (hn : n ∈ noisyNames) (hat : IsAtOrBelow name n) :
    isRoot name = false := by
  have hfront := hat.takeWhile_eq (List.mem_cons_of_mem _ hn)
  have hno : ∀ m, m.toList.takeWhile (· != '.') ∉ noisyNames.map String.toList → name ≠ m := by
    rintro m hm rfl
    exact hm (hfront ▸ List.mem_map_of_mem hn)
  rw [isRoot, Bool.or_eq_false_iff]
  constructor
  · exact Bool.eq_false_iff.mpr fun h => hno "" (by decide) (String.isEmpty_iff.mp h)
  · exact decide_eq_false (hno "root" (by decide))

/-- The level that a record needs, to pass its logger and then the handler of the root. -/
theorem max_threshold_atLevel {l : Logging} (h : l.Standing) {level : Nat}
    (hlevel : level = 0 ∨ 10 ≤ level) (name : String) :
    max level (if isRoot name then (l.atLevel level).root.level else (l.atLevel level).threshold name) =
      needed level name := by
  unfold needed
  by_cases hnoisy : IsNoisy name
  · obtain ⟨n, hn, hat⟩ := hnoisy
    rw [isRoot_of_isAtOrBelow hn hat, if_neg Bool.false_ne_true, threshold_noisy h level hn hat,
      if_pos ⟨n, hn, hat⟩]
  · rw [if_neg hnoisy]
    split
    · rw [atLevel_root]
    · exact max_threshold_of_not_noisy h hlevel fun n hn hat => hnoisy ⟨n, hn, hat⟩

/-- One handler and one threshold: a record is shown once at the root if it reaches both. -/
theorem timesShownAtRoot_atLevel {l : Logging} (h : l.Standing) {level : Nat}
    (hlevel : level = 0 ∨ 10 ≤ level) (r : LogRecord) :
    (l.atLevel level).timesShownAtRoot r = if needed level r.logger ≤ r.level then 1 else 0 := by
  have hneeded := max_threshold_atLevel h hlevel r.logger
  have hpos : 0 < needed level r.logger := by
    unfold needed
    split <;> omega
  unfold timesShownAtRoot passes
  rw [← hneeded] at hpos ⊢
  rw [show (l.atLevel level).root.handlers = [{ level }] from rfl]
  generalize (if isRoot r.logger then (l.atLevel level).root.level
    else (l.atLevel level).threshold r.logger) = own at hpos ⊢
  by_cases hreached : max level own ≤ r.level
  · have hown : own ≤ r.level := by omega
    have hle : level ≤ r.level := by omega
    have hne : r.level ≠ 0 := by omega
    simp [countShown, hreached, hown, hle, hne]
  · rw [if_neg hreached]
    split
    · rename_i hpasses
      have hle : ¬ level ≤ r.level := by
        simp only [Bool.and_eq_true, decide_eq_true_eq] at hpasses
        omega
      simp [countShown, hle]
    · rfl

/-- The loggers of a program that shows everything on its own and has given its noisy loggers
    handlers. -/
def talkative : Logging :=
  ⟨⟨"root", 10, [{ level := 0 }]⟩,
    ⟨packageName, 0, []⟩ :: noisyNames.map fun n => ⟨n, 0, [{ level := 0 }]⟩⟩

end Conform.Logging
