import Mathlib.Data.List.Basic
import Conform.Logging

/-!
# Thresholds

Once logging is configured for a level, both thresholds that a record of the library passes are that
level: that of its logger, which has it from the library (`threshold_atLevel`), and that of the only
handler. So what is shown of such records are those from the level on, each once and in their order
(`shown_atLevel`), and configuring again overrides what has been configured before
(`atLevel_atLevel`).
-/

namespace Conform

/-! ## 1. What configuring does to a logger -/

/-- A logger after configuring for a level. -/
def Logger.configured (level : Nat) (x : Logger) : Logger :=
  if x.name ∈ Logging.noisyNames then { x with level := 30, handlers := [] }
  else if x.name = Logging.packageName then { x with level }
  else x

namespace Logger

@[simp] theorem configured_name (level : Nat) (x : Logger) :
    (x.configured level).name = x.name := by
  unfold configured
  split
  · rfl
  · split <;> rfl

theorem configured_configured (a b : Nat) (x : Logger) :
    (x.configured a).configured b = x.configured b := by
  rw [configured, configured_name, configured.eq_def b x]
  unfold configured
  split
  · rfl
  · split <;> rfl

/-- The logger of the library gets the level. -/
theorem configured_level {x : Logger} (h : x.name = Logging.packageName) (level : Nat) :
    (x.configured level).level = level := by
  rw [configured, h, if_neg (by decide), if_pos rfl]

end Logger

namespace Logging

theorem atLevel_root (l : Logging) (level : Nat) :
    (l.atLevel level).root = { l.root with level := 10, handlers := [{ level }] } := rfl

theorem atLevel_others (l : Logging) (level : Nat) :
    (l.atLevel level).others = l.others.map (Logger.configured level) := by
  simp only [atLevel, quiet, noisyNames, List.foldl, modify, List.map_map]
  refine List.map_congr_left fun x _ => ?_
  simp only [Function.comp, Logger.configured, noisyNames, packageName]
  grind

/-- Only the last level counts. -/
theorem atLevel_atLevel (l : Logging) (a b : Nat) : (l.atLevel a).atLevel b = l.atLevel b := by
  have hothers : ((l.atLevel a).atLevel b).others = (l.atLevel b).others := by
    simp only [atLevel_others, List.map_map]
    exact List.map_congr_left fun x _ => Logger.configured_configured a b x
  exact congrArg (Logging.mk _) hothers

theorem logger?_atLevel (l : Logging) (level : Nat) (name : String) :
    (l.atLevel level).logger? name = (l.logger? name).map (Logger.configured level) := by
  rw [logger?, atLevel_others, List.find?_map, logger?]
  congr 2
  funext x
  simp

/-! ## 2. The handlers on the way -/

/-- Only the root and the noisy loggers show records. Their handlers are those that configuring
    takes. -/
def Unattended (l : Logging) : Prop :=
  ∀ x ∈ l.others, x.name ∉ noisyNames → ∀ k ∈ x.handlers, k.shows = false

instance (l : Logging) : Decidable l.Unattended :=
  inferInstanceAs (Decidable (∀ x ∈ l.others, x.name ∉ noisyNames → ∀ k ∈ x.handlers, k.shows = false))

/-- How often a record is shown before it comes to the root. -/
def timesShownOnWay (l : Logging) (r : LogRecord) : Nat :=
  if l.passes r then countShown (l.handlersOnWay r.logger) r else 0

/-- How often a record is shown at the root. -/
def timesShownAtRoot (l : Logging) (r : LogRecord) : Nat :=
  if l.passes r then countShown l.root.handlers r else 0

theorem timesShown_eq (l : Logging) (r : LogRecord) :
    l.timesShown r = l.timesShownAtRoot r + l.timesShownOnWay r := by
  unfold timesShown timesShownAtRoot timesShownOnWay countShown
  split
  · rw [List.countP_append, Nat.add_comm]
  · rfl

/-- Configuring takes the handlers of the noisy loggers, so if no others show records, none are shown
    on the way. -/
theorem timesShownOnWay_atLevel {l : Logging} (h : l.Unattended) (level : Nat) (r : LogRecord) :
    (l.atLevel level).timesShownOnWay r = 0 := by
  have hquiet : ∀ k ∈ (l.atLevel level).handlersOnWay r.logger, k.shows = false := by
    intro k hk
    unfold handlersOnWay at hk
    split at hk
    · cases hk
    · obtain ⟨n, -, hk⟩ := List.mem_flatMap.mp hk
      rw [logger?_atLevel] at hk
      cases hx : l.logger? n with
      | none =>
        rw [hx] at hk
        cases hk
      | some x =>
        rw [hx] at hk
        have hmem : x ∈ l.others := List.mem_of_find?_eq_some hx
        change k ∈ (x.configured level).handlers at hk
        unfold Logger.configured at hk
        split at hk
        · cases hk
        · rename_i hother
          split at hk <;> exact h x hmem hother k hk
  unfold timesShownOnWay countShown
  split
  · exact List.countP_eq_zero.mpr fun k hk => by simp [hquiet k hk]
  · rfl

/-! ## 3. The library's own records -/

/-- A name below that of the library, with no other logger in between. -/
def Belongs (l : Logging) (name : String) : Prop :=
  isRoot name = false ∧
    (name :: ancestors name).find? (fun n => (l.logger? n).isSome) = some packageName

instance (l : Logging) (name : String) : Decidable (l.Belongs name) :=
  inferInstanceAs (Decidable (_ ∧ _))

/-- A logger of the library has the library's level. -/
theorem threshold_atLevel {l : Logging} {name : String} (h : l.Belongs name) {level : Nat}
    (hlevel : 0 < level) : (l.atLevel level).threshold name = level := by
  obtain ⟨hsome, before, above, hnames, hbefore⟩ := List.find?_eq_some_iff_append.mp h.2
  obtain ⟨x, hx⟩ := Option.isSome_iff_exists.mp hsome
  have hname : x.name = packageName := by simpa using List.find?_some hx
  -- The names in front of the library's have no logger, so the first level found is the library's.
  have hnone : before.filterMap (fun n => ((l.atLevel level).logger? n).bind fun x =>
      if x.level = 0 then none else some x.level) = [] := by
    refine List.filterMap_eq_nil_iff.mpr fun n hn => ?_
    have hno : l.logger? n = none := by simpa using hbefore n hn
    rw [logger?_atLevel, hno]
    rfl
  rw [threshold, hnames, List.filterMap_append, hnone, List.nil_append, List.filterMap_cons,
    logger?_atLevel, hx]
  simp [Logger.configured_level hname, Nat.ne_of_gt hlevel]

/-- A record of the library that has a level. -/
def IsOwn (l : Logging) (r : LogRecord) : Prop :=
  l.Belongs r.logger ∧ 0 < r.level

/-- Both thresholds are the same, so a record of the library is shown once or not at all. -/
theorem timesShown_atLevel {l : Logging} (hl : l.Unattended) {r : LogRecord} (h : l.IsOwn r)
    {level : Nat} (hlevel : 0 < level) :
    (l.atLevel level).timesShown r = if level ≤ r.level then 1 else 0 := by
  rw [timesShown_eq, timesShownOnWay_atLevel hl, Nat.add_zero, timesShownAtRoot, passes, h.1.1,
    if_neg Bool.false_ne_true, threshold_atLevel h.1 hlevel, atLevel_root]
  by_cases hle : level ≤ r.level
  · simp [hle, Nat.ne_of_gt h.2, countShown]
  · simp [hle]

/-- What is shown of the library's own records: those from the level on. -/
theorem shown_atLevel {l : Logging} (hl : l.Unattended) {records : List LogRecord}
    (h : ∀ r ∈ records, l.IsOwn r) {level : Nat} (hlevel : 0 < level) :
    (l.atLevel level).shown records = records.filter fun r => level ≤ r.level := by
  induction records with
  | nil => rfl
  | cons r records ih =>
    obtain ⟨hr, hrecords⟩ := List.forall_mem_cons.mp h
    rw [shown, List.flatMap_cons, timesShown_atLevel hl hr hlevel, ← shown, ih hrecords,
      List.filter_cons]
    by_cases hle : level ≤ r.level <;> simp [hle]

end Logging

end Conform
