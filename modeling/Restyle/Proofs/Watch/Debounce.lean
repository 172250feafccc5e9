import Mathlib.Data.List.Chain
import Mathlib.Data.List.Induction
import Restyle.Program.Run
import Restyle.Proofs.Job

namespace Restyle

theorem Change.isWatched_iff (c : Change) :
    c.isWatched = true ↔ c.kind ≠ .deleted ∧ c.isFolder = false ∧
      ∃ ending ∈ watchedEndings, ending.toList <:+ c.path.toList := by
  simp [isWatched, hasEnding, and_assoc]

theorem Debouncer.note_of_ignored {σ : Type} (clock : StateM σ Double) (d : Debouncer) {c : Change}
    (h : c.isWatched = false) (s : σ) : d.note clock c s = ((false, d), s) := by
  unfold note
  rw [h]
  rfl

theorem Debouncer.note_of_isWatched {σ : Type} {clock : StateM σ Double} {s s' : σ} {time : Double}
    (hclock : clock s = (time, s')) (d : Debouncer) {c : Change} (h : c.isWatched = true) :
    d.note clock c s =
      (if (time.sub d.last).less d.window = true then (false, d)
        else (true, { d with last := time }), s') := by
  have hread : d.note clock c s =
      (if ((clock s).1.sub d.last).less d.window = true then pure (false, d)
        else pure (true, { d with last := (clock s).1 }) : StateM σ (Bool × Debouncer))
        (clock s).2 := by
    unfold note
    rw [h]
    rfl
  rw [hread, hclock]
  split
  next => rfl
  next => rfl

/-- A change and what the clock shows when it comes. -/
abbrev Event := Change × Double

/-- A clock that shows a time and keeps a record of its readings. -/
def clockAt (time : Double) : StateM (List Double) Double := fun readings =>
  (time, readings ++ [time])

/-- A debouncer at work: the events that it has passed on, and the readings of the clock that it has
taken. -/
structure Watch where
  debouncer : Debouncer
  passed : List Event := []
  readings : List Double := []

namespace Watch

def handle (w : Watch) (event : Event) : Watch :=
  let noted := (w.debouncer.note (clockAt event.2) event.1).run w.readings
  { debouncer := noted.1.2
    passed := if noted.1.1 then w.passed ++ [event] else w.passed
    readings := noted.2 }

/-- A new debouncer after several events. -/
def run (window : Double) (events : List Event) : Watch :=
  events.foldl handle { debouncer := { window } }

/-- Whether an event comes before the window after a time has passed. -/
def IsTooSoon (window last : Double) (event : Event) : Prop :=
  (event.2.sub last).less window = true

/-- What an event can do. -/
inductive Handles (w : Watch) (event : Event) : Watch → Prop
  | ignored (h : event.1.isWatched = false) : Handles w event w
  | heldBack (h : event.1.isWatched = true)
      (hs : IsTooSoon w.debouncer.window w.debouncer.last event) :
    Handles w event { w with readings := w.readings ++ [event.2] }
  | passedOn (h : event.1.isWatched = true)
      (hs : ¬ IsTooSoon w.debouncer.window w.debouncer.last event) :
    Handles w event {
      debouncer := { w.debouncer with last := event.2 }
      passed := w.passed ++ [event]
      readings := w.readings ++ [event.2] }

theorem handle_of_ignored {w : Watch} {event : Event} (h : event.1.isWatched = false) :
    w.handle event = w := by
  have hnote := Debouncer.note_of_ignored (clockAt event.2) w.debouncer h w.readings
  simp only [handle, StateT.run, hnote]
  rfl

theorem handle_of_isWatched {w : Watch} {event : Event} (h : event.1.isWatched = true) :
    w.handle event =
      if (event.2.sub w.debouncer.last).less w.debouncer.window = true then
        { w with readings := w.readings ++ [event.2] }
      else {
        debouncer := { w.debouncer with last := event.2 }
        passed := w.passed ++ [event]
        readings := w.readings ++ [event.2] } := by
  have hclock : clockAt event.2 w.readings = (event.2, w.readings ++ [event.2]) := rfl
  simp only [handle, StateT.run, Debouncer.note_of_isWatched hclock w.debouncer h]
  split
  next => rfl
  next => rfl

theorem handles_handle (w : Watch) (event : Event) : w.Handles event (w.handle event) := by
  cases h : event.1.isWatched with
  | false =>
    rw [handle_of_ignored h]
    exact .ignored h
  | true =>
    rw [handle_of_isWatched h]
    split
    next hs => exact .heldBack h hs
    next hs => exact .passedOn h hs

/-- That the program goes from one debouncer to the other at an event. It announces the change and
takes stock of the file exactly if the event is passed on, and else it does nothing. -/
def ReactsAs (w : Watch) (event : Event) (w' : Watch) : Prop :=
  ∀ (json : Bool) (tags : Json) (memory : Memory), memory.time = event.2 →
    (Program.react json tags w.debouncer event.1 : Job (StateM Memory) Debouncer) memory =
      if w'.passed = w.passed then (.ok w.debouncer, memory)
      else (do
        Job.printLine event.1.announcement
        Program.reanalyze json tags event.1.path
        return w'.debouncer : Job (StateM Memory) Debouncer) memory

theorem Handles.reactsAs {w w' : Watch} {event : Event} (h : w.Handles event w') :
    w.ReactsAs event w' := by
  intro json tags memory htime
  have hclock : (Host.now : StateM Memory Double) memory = (event.2, memory) := by
    rw [← htime]
    rfl
  rw [Program.react]
  cases h with
  | ignored h =>
    have hnote := Debouncer.note_of_ignored Host.now w.debouncer h memory
    rw [Job.lift_bind_memory hnote, if_pos rfl]
    rfl
  | heldBack h hs =>
    have hnote := Debouncer.note_of_isWatched hclock w.debouncer h
    rw [Job.lift_bind_memory (hnote.trans (congrArg (·, memory) (if_pos hs))), if_pos rfl]
    rfl
  | passedOn h hs =>
    have hnote := Debouncer.note_of_isWatched hclock w.debouncer h
    have hlonger : w.passed ++ [event] ≠ w.passed := by simp
    rw [Job.lift_bind_memory (hnote.trans (congrArg (·, memory) (if_neg hs))), if_neg hlonger]
    rfl

/-- The time of the last event that was passed on, and zero before the first. -/
def lastTime (passed : List Event) : Double := (passed.getLast?.map (·.2)).getD .zero

/-- What holds of a debouncer at work at any time: only changes of source files are passed on, in
their order, and none too soon after the one before; the last time is that of the last one; and the
clock is read at the changes of source files and at no others. -/
structure IsDebounced (window : Double) (events : List Event) (w : Watch) : Prop where
  window_eq : w.debouncer.window = window
  last : w.debouncer.last = lastTime w.passed
  passed : List.Sublist w.passed (events.filter (·.1.isWatched))
  apart : w.passed.IsChain fun earlier later => ¬ IsTooSoon window earlier.2 later
  readings : w.readings = (events.filter (·.1.isWatched)).map (·.2)

section

variable {window : Double} {events : List Event} {w w' : Watch} {event : Event}

theorem filter_concat_of_not (h : event.1.isWatched = false) :
    (events ++ [event]).filter (·.1.isWatched) = events.filter (·.1.isWatched) := by
  simp [h]

theorem filter_concat_of (h : event.1.isWatched = true) :
    (events ++ [event]).filter (·.1.isWatched) = events.filter (·.1.isWatched) ++ [event] := by
  simp [h]

theorem Handles.isDebounced (hw : IsDebounced window events w) (h : w.Handles event w') :
    IsDebounced window (events ++ [event]) w' := by
  cases h with
  | ignored h =>
    refine ⟨hw.window_eq, hw.last, ?_, hw.apart, ?_⟩
    · rw [filter_concat_of_not h]
      exact hw.passed
    · rw [filter_concat_of_not h]
      exact hw.readings
  | heldBack h _ =>
    refine ⟨hw.window_eq, hw.last, ?_, hw.apart, ?_⟩
    · rw [filter_concat_of h]
      exact hw.passed.trans (List.sublist_append_left _ _)
    · rw [filter_concat_of h, List.map_append, ← hw.readings]
      rfl
  | passedOn h hs =>
    refine ⟨hw.window_eq, ?_, ?_, ?_, ?_⟩
    · simp [lastTime]
    · rw [filter_concat_of h]
      exact hw.passed.append (.refl _)
    · -- the event before it is the one that the debouncer has the time of
      refine hw.apart.append (.singleton event) ?_
      intro earlier he later hl
      cases hl
      have hlast : w.debouncer.last = earlier.2 := by
        rw [hw.last, lastTime, Option.mem_def.mp he]
        rfl
      rwa [hw.window_eq, hlast] at hs
    · rw [filter_concat_of h, List.map_append, ← hw.readings]
      rfl

theorem Handles.isPrefix_passed (h : w.Handles event w') : w.passed <+: w'.passed := by
  cases h with
  | ignored => exact List.prefix_refl _
  | heldBack => exact List.prefix_refl _
  | passedOn => exact List.prefix_append _ _

end

theorem run_concat (window : Double) (events : List Event) (event : Event) :
    run window (events ++ [event]) = (run window events).handle event := by
  rw [run, List.foldl_concat, ← run]

theorem isDebounced_run (window : Double) (events : List Event) :
    IsDebounced window events (run window events) := by
  induction events using List.reverseRecOn with
  | nil => exact ⟨rfl, rfl, .slnil, .nil, rfl⟩
  | append_singleton events event ih =>
    rw [run_concat]
    exact (handles_handle _ event).isDebounced ih

/-- What was passed on stays so. -/
theorem isPrefix_passed_run (window : Double) (events later : List Event) :
    (run window events).passed <+: (run window (events ++ later)).passed := by
  induction later using List.reverseRecOn with
  | nil => simp only [List.append_nil, List.prefix_refl]
  | append_singleton later event ih =>
    rw [← List.append_assoc, run_concat]
    exact ih.trans (handles_handle _ event).isPrefix_passed

/-- Over a whole run, whatever the window and the times: at each event the debouncer has the time of
the last one that it passed on. It passes the next one on exactly if that is a change of a source
file and does not come too soon, and it takes no notice at all of other changes. What is passed on is
what the program reacts to. -/
theorem run_debounces (window : Double) (events : List Event) (event : Event)
    (later : List Event) :
    IsDebounced window events (run window events) ∧
    (run window events).Handles event (run window (events ++ [event])) ∧
    (run window events).ReactsAs event (run window (events ++ [event])) ∧
    (run window (events ++ [event])).passed <+: (run window (events ++ event :: later)).passed ∧
    (event.1.isWatched = true ↔ event.1.kind ≠ .deleted ∧ event.1.isFolder = false ∧
      ∃ ending ∈ watchedEndings, ending.toList <:+ event.1.path.toList) := by
  have hhandles : (run window events).Handles event (run window (events ++ [event])) := by
    rw [run_concat]
    exact handles_handle _ event
  have happend : events ++ event :: later = events ++ [event] ++ later := by simp
  refine ⟨isDebounced_run window events, hhandles, hhandles.reactsAs, ?_, event.1.isWatched_iff⟩
  rw [happend]
  exact isPrefix_passed_run window _ later

/-- A clock that goes back, and changes that do not count. -/
def backwardEvents : List Event := [
  ({ path := "a.tsx" }, .ofInt 100), ({ path := "b.png" }, .ofInt 200),
  ({ path := "c.ts", kind := .created }, .ofInt 99),
  ({ path := "d.ts", isFolder := true }, .ofInt 300), ({ path := "e.js" }, .ofInt 101)]

example : ((run (.ofInt 1) backwardEvents).passed.map (·.1.path),
    (run (.ofInt 1) backwardEvents).readings) =
    (["a.tsx", "e.js"], [.ofInt 100, .ofInt 99, .ofInt 101]) := by
  decide +kernel

end Watch

end Restyle
