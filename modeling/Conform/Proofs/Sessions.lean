import Mathlib.Data.List.Induction
import Conform.Session

/-!
# Sessions carry no history

Of all that has happened in a session, an answer about a collection or about the schema depends on
one thing: the text that was the last to compile. What keeps it so is that the schema in force and
the copy that callers edit share no cell (`WellKept`). An edit changes every schema that shares the
cell (`load_editProperties`), so a copy that shared one would show in the next check
(`shared_edit_shows`). Every step keeps the cells apart (`step_wellKept`), and then leaves the schema
in force as it is unless it compiles a text (`inForce_step`). So every such answer is the one that a
session gives which has compiled that text and done nothing else (`answers_carry_no_history`).
-/

namespace Conform

/-! ## 1. Cells -/

/-- Two schemas share no cell. -/
structure StoredSchema.Apart (o c : StoredSchema) : Prop where
  users : o.usedBy ≠ c.usedBy
  properties : o.properties ≠ c.properties

namespace Memory

/-- The cells of a schema are in use. -/
structure Keeps (m : Memory) (o : StoredSchema) : Prop where
  users : o.usedBy < m.users.length
  properties : o.properties < m.tables.length

/-- What is kept in a memory is kept in another one as it is. -/
def Extends (m m' : Memory) : Prop :=
  ∀ o, m.Keeps o → m'.Keeps o ∧ m'.load o = m.load o

variable {m m' : Memory} {o c : StoredSchema}

theorem Extends.trans {m'' : Memory} (h : m.Extends m') (h' : m'.Extends m'') : m.Extends m'' :=
  fun o ho => ⟨(h' o (h o ho).1).1, (h' o (h o ho).1).2.trans (h o ho).2⟩

/-- New cells change nothing about those in use. -/
theorem extends_store (m : Memory) (s : Schema) : m.Extends (m.store s).2 := by
  intro o h
  constructor
  · constructor
    · show o.usedBy < (m.users ++ [s.usedBy]).length
      rw [List.length_append]
      exact Nat.lt_add_right _ h.users
    · show o.properties < (m.tables ++ [s.properties]).length
      rw [List.length_append]
      exact Nat.lt_add_right _ h.properties
  · simp [store, load, List.getElem?_append_left h.users, List.getElem?_append_left h.properties]

theorem keeps_store (m : Memory) (s : Schema) : (m.store s).2.Keeps (m.store s).1 := by
  constructor
  · show m.users.length < (m.users ++ [s.usedBy]).length
    rw [List.length_append]
    exact Nat.lt_succ_self _
  · show m.tables.length < (m.tables ++ [s.properties]).length
    rw [List.length_append]
    exact Nat.lt_succ_self _

/-- A schema that has just been kept is there. -/
@[simp] theorem load_store (m : Memory) (s : Schema) : (m.store s).2.load (m.store s).1 = s := by
  simp [store, load]

/-- A copy says what the schema says. -/
@[simp] theorem load_copy (m : Memory) (o : StoredSchema) :
    (m.copy o).2.load (m.copy o).1 = m.load o :=
  m.load_store (m.load o)

/-- New cells are shared with nothing that is kept. -/
theorem Keeps.apart_store (h : m.Keeps o) (s : Schema) : o.Apart (m.store s).1 :=
  ⟨Nat.ne_of_lt h.users, Nat.ne_of_lt h.properties⟩

/-- **An edit of properties shows in every schema that shares their cell**, and in no other. -/
theorem load_editProperties (h : m.Keeps o) (c : StoredSchema)
    (f : List (Atom × Property) → List (Atom × Property)) :
    (m.editProperties c f).load o =
      if o.properties = c.properties then
        { m.load o with properties := f (m.load o).properties }
      else m.load o := by
  simp only [load, editProperties, List.getD_eq_getElem?_getD, List.getElem?_modify,
    List.getElem?_eq_getElem h.properties, @eq_comm _ c.properties]
  split <;> rfl

/-- **An edit of users shows in every schema that shares their cell**, and in no other. -/
theorem load_editUsers (h : m.Keeps o) (c : StoredSchema) (f : List Outline → List Outline) :
    (m.editUsers c f).load o =
      if o.usedBy = c.usedBy then { m.load o with usedBy := f (m.load o).usedBy } else m.load o := by
  simp only [load, editUsers, List.getD_eq_getElem?_getD, List.getElem?_modify,
    List.getElem?_eq_getElem h.users, @eq_comm _ c.usedBy]
  split <;> rfl

/-- A change of what a schema holds: every schema that is kept stays so, and is as it was if it
    shares no cell with the one that is changed. -/
def Edits (f : Memory → StoredSchema → Memory) : Prop :=
  ∀ m c o, m.Keeps o → (f m c).Keeps o ∧ (o.Apart c → (f m c).load o = m.load o)

theorem edits_editProperties (f : List (Atom × Property) → List (Atom × Property)) :
    Edits fun m c => m.editProperties c f := by
  refine fun m c o h => ⟨⟨h.users, ?_⟩, fun hapart => ?_⟩
  · simpa [editProperties] using h.properties
  · rw [load_editProperties h, if_neg hapart.properties]

theorem edits_editUsers (f : List Outline → List Outline) : Edits fun m c => m.editUsers c f := by
  refine fun m c o h => ⟨⟨?_, h.properties⟩, fun hapart => ?_⟩
  · simpa [editUsers] using h.users
  · rw [load_editUsers h, if_neg hapart.users]

end Memory

/-! ## 2. What steps ask and compile -/

/-- The steps that ask the schema in force. -/
inductive Step.Asks : Step → Prop
  | check (text : List Char) : Asks (.check text)
  | validate (text : List Char) : Asks (.validate text)
  | schema : Asks .schema

/-- The text that a step compiles, if it does. -/
def Step.compiled? : Step → Option (List Char)
  | .compile text => if (Schema.compile text).isOk then some text else none
  | _ => none

namespace Session

/-- The text that was the last to compile. -/
def lastCompiled? (steps : List Step) : Option (List Char) :=
  steps.reverse.findSome? Step.compiled?

/-- A session after some steps. -/
def after (σ : Session) (steps : List Step) : Session :=
  steps.foldl (fun σ t => (σ.step t).2) σ

/-- The schema that a text brings into force. -/
def schemaOf? (text : List Char) : Option Schema :=
  (Schema.compile text).toOption

/-- The schema in force. -/
def inForce? (σ : Session) : Option Schema :=
  σ.schema.map σ.memory.load

/-- What a session has is kept, and no edit of the copy is one of the schema in force. -/
structure WellKept (σ : Session) : Prop where
  schema : ∀ o ∈ σ.schema, σ.memory.Keeps o
  copy : ∀ c ∈ σ.copy, σ.memory.Keeps c
  apart : ∀ o ∈ σ.schema, ∀ c ∈ σ.copy, o.Apart c

/-! ## 3. The schema in force -/

variable {σ : Session}

/-- A session starts with nothing. -/
theorem wellKept_empty : WellKept {} :=
  ⟨nofun, nofun, nofun⟩

/-- More memory does no harm. -/
theorem WellKept.extend (h : σ.WellKept) {m : Memory} (hm : σ.memory.Extends m) :
    WellKept { σ with memory := m } ∧ inForce? { σ with memory := m } = σ.inForce? := by
  refine ⟨⟨fun o ho => (hm o (h.schema o ho)).1, fun c hc => (hm c (h.copy c hc)).1, h.apart⟩, ?_⟩
  exact Option.map_congr fun o ho => (hm o (h.schema o ho)).2

/-- A schema that is kept in new cells comes into force. -/
theorem WellKept.bringIn (h : σ.WellKept) (s : Schema) :
    WellKept { σ with memory := (σ.memory.store s).2, schema := some (σ.memory.store s).1 } := by
  have hm := σ.memory.extends_store s
  refine ⟨?_, fun c hc => (hm c (h.copy c hc)).1, ?_⟩
  · rintro _ ⟨⟩
    exact σ.memory.keeps_store s
  · rintro _ ⟨⟩ c hc
    have hapart := (h.copy c hc).apart_store s
    exact ⟨hapart.users.symm, hapart.properties.symm⟩

/-- A copy that is kept in new cells is exposed. -/
theorem WellKept.expose (h : σ.WellKept) (s : Schema) :
    WellKept { σ with memory := (σ.memory.store s).2, copy := some (σ.memory.store s).1 } := by
  have hm := σ.memory.extends_store s
  refine ⟨fun o ho => (hm o (h.schema o ho)).1, ?_, ?_⟩
  · rintro _ ⟨⟩
    exact σ.memory.keeps_store s
  · rintro o ho _ ⟨⟩
    exact (h.schema o ho).apart_store s

/-- **An edit of the copy is none of the schema in force.** -/
theorem WellKept.change (h : σ.WellKept) {f : Memory → StoredSchema → Memory}
    (hf : Memory.Edits f) : (σ.change f).2.WellKept ∧ (σ.change f).2.inForce? = σ.inForce? := by
  unfold Session.change
  split
  · exact ⟨h, rfl⟩
  · rename_i c hc
    refine ⟨⟨fun o ho => (hf _ c o (h.schema o ho)).1, fun d hd => (hf _ c d (h.copy d hd)).1,
      h.apart⟩, ?_⟩
    exact Option.map_congr fun o ho => (hf _ c o (h.schema o ho)).2 (h.apart o ho c hc)

/-- Had the copy the cell of the schema in force, clearing it would leave that one without
    properties. -/
theorem shared_edit_shows {o c : StoredSchema} (ho : σ.schema = some o) (hc : σ.copy = some c)
    (hkeeps : σ.memory.Keeps o) (hshared : o.properties = c.properties) :
    (σ.step .copyClear).2.inForce? = some { σ.memory.load o with properties := [] } := by
  have hstep : (σ.step .copyClear).2 =
      { σ with memory := σ.memory.editProperties c fun _ => [] } := by
    simp only [step, ho, under, change, hc]
  rw [hstep, inForce?, ho, Option.map_some, Memory.load_editProperties hkeeps, if_pos hshared]

theorem step_compile (σ : Session) (text : List Char) : σ.step (.compile text) = σ.compile text := by
  unfold step
  cases σ.schema <;> rfl

/-- Compiling does the same whatever is in force. -/
theorem WellKept.compile (h : σ.WellKept) (text : List Char) :
    (σ.compile text).2.WellKept ∧
      (σ.compile text).2.inForce? =
        match (Step.compile text).compiled? with
        | some text => schemaOf? text
        | none => σ.inForce? := by
  unfold Session.compile
  cases hcompile : Schema.compile text with
  | error f => simp [Step.compiled?, Except.isOk, Except.toBool, hcompile, h]
  | ok new =>
    have hin := h.bringIn new
    obtain ⟨hkept, hforce⟩ := hin.extend (Memory.extends_store _ _)
    refine ⟨hkept, hforce.trans ?_⟩
    simp [Step.compiled?, schemaOf?, Except.isOk, Except.toBool, Except.toOption, hcompile, inForce?]

/-- A step that compiles no text keeps the cells apart and leaves the schema in force as it is. -/
theorem WellKept.under (h : σ.WellKept) (o : StoredSchema) {t : Step}
    (ht : ∀ text, t ≠ .compile text) :
    (σ.under o t).2.WellKept ∧ (σ.under o t).2.inForce? = σ.inForce? := by
  cases t with
  | compile text => exact absurd rfl (ht text)
  | check text =>
    rw [Session.under]
    split <;> exact ⟨h, rfl⟩
  | validate text =>
    rw [Session.under]
    split <;> exact ⟨h, rfl⟩
  | schema => exact h.extend (Memory.extends_store _ _)
  | copy =>
    have hextend := h.extend (σ.memory.extends_store (σ.memory.load o))
    exact ⟨h.expose _, hextend.2⟩
  | copyClear => exact h.change (Memory.edits_editProperties _)
  | copyDelete key =>
    rw [Session.under]
    split
    · exact ⟨h, rfl⟩
    · exact h.change (Memory.edits_editProperties _)
  | copyAppend user => exact h.change (Memory.edits_editUsers _)
  | copyAssign => exact ⟨h, rfl⟩

/-- **What one step does**: the cells stay apart, and the schema in force stays as it is, unless the
    step compiles a text. -/
theorem WellKept.step (h : σ.WellKept) (t : Step) :
    (σ.step t).2.WellKept ∧
      (σ.step t).2.inForce? =
        match t.compiled? with
        | some text => schemaOf? text
        | none => σ.inForce? := by
  by_cases ht : ∃ text, t = .compile text
  · obtain ⟨text, rfl⟩ := ht
    rw [step_compile]
    exact h.compile text
  · have hno : ∀ text, t ≠ .compile text := fun text heq => ht ⟨text, heq⟩
    have hquiet : t.compiled? = none := by
      cases t with
      | compile text => exact absurd rfl (hno text)
      | _ => rfl
    rw [hquiet]
    unfold Session.step
    cases σ.schema with
    | some o => exact h.under o hno
    | none =>
      cases t with
      | compile text => exact absurd rfl (hno text)
      | _ => exact ⟨h, rfl⟩

theorem after_concat (σ : Session) (steps : List Step) (t : Step) :
    σ.after (steps ++ [t]) = ((σ.after steps).step t).2 := by
  rw [after, List.foldl_append]
  rfl

theorem lastCompiled?_concat (steps : List Step) (t : Step) :
    lastCompiled? (steps ++ [t]) = t.compiled?.or (lastCompiled? steps) := by
  rw [lastCompiled?, List.reverse_append, List.reverse_singleton, List.singleton_append,
    List.findSome?_cons]
  cases t.compiled? <;> rfl

/-- **The schema in force is that of the text that was the last to compile**, whatever has been done
    to the copies of it. -/
theorem inForce_after (steps : List Step) :
    (after {} steps).WellKept ∧
      (after {} steps).inForce? = (lastCompiled? steps).bind schemaOf? := by
  induction steps using List.reverseRecOn with
  | nil => exact ⟨wellKept_empty, rfl⟩
  | append_singleton steps t ih =>
    obtain ⟨hkept, hforce⟩ := ih.1.step t
    rw [after_concat, lastCompiled?_concat]
    refine ⟨hkept, hforce.trans ?_⟩
    rw [ih.2]
    cases t.compiled? <;> rfl

/-! ## 4. Answers -/

/-- What a step that asks is answered depends on the schema in force only, and not on the cells in
    which it is kept. -/
theorem answer_congr {σ' : Session} {t : Step} (ht : t.Asks) (h : σ.inForce? = σ'.inForce?) :
    (σ.step t).1 = (σ'.step t).1 := by
  unfold step
  unfold inForce? at h
  cases hs : σ.schema with
  | none =>
    rw [hs] at h
    rw [Option.map_eq_none_iff.mp h.symm]
    cases ht <;> rfl
  | some o =>
    rw [hs] at h
    obtain ⟨o', hs', hload⟩ := Option.map_eq_some_iff.mp h.symm
    rw [hs']
    dsimp only
    cases ht with
    | check text =>
      rw [under, under, hload]
      split <;> rfl
    | validate text =>
      rw [under, under, hload]
      split <;> rfl
    | schema =>
      show Answer.schema ((σ.memory.copy o).2.load (σ.memory.copy o).1) =
        Answer.schema ((σ'.memory.copy o').2.load (σ'.memory.copy o').1)
      rw [Memory.load_copy, Memory.load_copy, hload]

theorem answer_of_none {t : Step} (ht : t.Asks) (h : σ.inForce? = none) :
    (σ.step t).1 = .noSchema := by
  unfold step
  rw [Option.map_eq_none_iff.mp h]
  cases ht <;> rfl

/-- The answers of a run are those of its steps, each in the session after the steps before it. -/
theorem getElem?_run : ∀ (σ : Session) (steps : List Step) (i : Nat),
    (σ.run steps)[i]? = steps[i]?.map fun t => ((σ.after (steps.take i)).step t).1
  | _, [], _ => rfl
  | _, _ :: _, 0 => rfl
  | σ, t :: steps, i + 1 => getElem?_run (σ.step t).2 steps i

theorem compiled?_eq_some {t : Step} {text : List Char} (h : t.compiled? = some text) :
    t = .compile text := by
  cases t with
  | compile text' =>
    rw [Step.compiled?, Option.ite_none_right_eq_some] at h
    rw [Option.some.inj h.2]
  | _ => cases h

/-- The text that was the last to compile is one that compiles. -/
theorem compiled?_of_last {steps : List Step} {text : List Char}
    (h : lastCompiled? steps = some text) : (Step.compile text).compiled? = some text := by
  obtain ⟨t, -, ht⟩ := List.exists_of_findSome?_eq_some h
  rwa [← compiled?_eq_some ht]

/-- A step that compiles no text changes nothing about which text was the last to compile. -/
theorem lastCompiled?_quiet {quiet : Step} (h : quiet.compiled? = none) (front back : List Step) :
    lastCompiled? (front ++ quiet :: back) = lastCompiled? (front ++ back) := by
  simp only [lastCompiled?, List.reverse_append, List.reverse_cons, List.findSome?_append,
    List.findSome?_singleton, h, Option.or_none]

/-- **Answers carry no history.** In every session, the answer to a step that asks the schema is the
    one that a session gives which has compiled the text that was the last to compile, and has done
    nothing else. Hence every step that compiles no text, such as a failed compilation, a check or an
    edit of the copy, can be left out without changing any such answer behind it. An assignment to
    the copy is refused and leaves everything as it was. -/
theorem answers_carry_no_history (steps : List Step) :
    (∀ i t, steps[i]? = some t → t.Asks →
      (run {} steps)[i]? =
        match lastCompiled? (steps.take i) with
        | none => some .noSchema
        | some text => (run {} [.compile text, t])[1]?) ∧
    (∀ front quiet back, steps = front ++ quiet :: back → quiet.compiled? = none →
      ∀ i t, back[i]? = some t → t.Asks →
        (run {} steps)[front.length + 1 + i]? = (run {} (front ++ back))[front.length + i]?) ∧
    ∀ σ : Session, (σ.step .copyAssign).2 = σ := by
  refine ⟨fun i t hi ht => ?_, ?_, fun σ => ?_⟩
  · rw [getElem?_run, hi, Option.map_some]
    have hforce := (inForce_after (steps.take i)).2
    cases hlast : lastCompiled? (steps.take i) with
    | none =>
      rw [hlast] at hforce
      exact congrArg some (answer_of_none ht hforce)
    | some text =>
      have hone : lastCompiled? [.compile text] = some text := by
        rw [lastCompiled?, List.reverse_singleton, List.findSome?_singleton,
          compiled?_of_last hlast]
      have hfresh := (inForce_after [.compile text]).2
      rw [hone] at hfresh
      rw [hlast] at hforce
      exact congrArg some (answer_congr ht (hforce.trans hfresh.symm))
  -- With and without the quiet step, the same text was the last to compile.
  · rintro front quiet back rfl hquiet i t hi ht
    have hwith : (front ++ quiet :: back)[front.length + 1 + i]? = some t := by
      rw [List.getElem?_append_right (by omega)]
      simpa [Nat.add_sub_cancel_left, Nat.add_assoc, Nat.add_comm 1 i] using hi
    have hwithout : (front ++ back)[front.length + i]? = some t := by
      rw [List.getElem?_append_right (by omega), Nat.add_sub_cancel_left, hi]
    have hlast : lastCompiled? ((front ++ quiet :: back).take (front.length + 1 + i)) =
        lastCompiled? ((front ++ back).take (front.length + i)) := by
      rw [Nat.add_assoc, List.take_length_add_append, List.take_length_add_append, Nat.add_comm 1 i,
        List.take_succ_cons, lastCompiled?_quiet hquiet]
    rw [getElem?_run, getElem?_run, hwith, hwithout]
    exact congrArg some (answer_congr ht (by rw [(inForce_after _).2, (inForce_after _).2, hlast]))
  · unfold step
    cases σ.schema <;> rfl

/-- A schema with one property. -/
def oneName : List Char :=
  "description: x\nused_by: []\nproperties: \x7ba: \x7btype: String\x7d\x7d".toList

/-- A session in which the copy is edited and a text does not compile before a collection is
    checked that has an undeclared field. -/
def editedSession : List Step :=
  [.compile oneName, .copy, .copyClear, .compile "5".toList, .copyAssign,
    .check "- \x7bb: 1\x7d".toList]

theorem editedSession_carries_no_history :
    lastCompiled? (editedSession.take 5) = some oneName ∧
      (run {} editedSession)[5]? = (run {} [.compile oneName, .check "- \x7bb: 1\x7d".toList])[1]? ∧
      (run {} editedSession)[5]? =
        (run {} [.compile oneName, .copy, .copyClear, .copyAssign,
          .check "- \x7bb: 1\x7d".toList])[4]? := by
  have hlast : lastCompiled? (editedSession.take 5) = some oneName := by decide +kernel
  have hquiet : (Step.compile "5".toList).compiled? = none := by decide +kernel
  obtain ⟨fresh, quiet, -⟩ := answers_carry_no_history editedSession
  refine ⟨hlast, ?_, ?_⟩
  · rw [fresh 5 _ rfl (.check _), hlast]
  · exact quiet [.compile oneName, .copy, .copyClear] _ [.copyAssign, .check _] rfl hquiet 1 _ rfl
      (.check _)

end Session

end Conform
