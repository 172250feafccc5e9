import Restyle.Host.Memory

namespace Restyle

namespace Job

variable {α β : Type}

/-- A job in steps that only look at the memory does so as a whole. -/
theorem bind_memory {x : Job (StateM Memory) α} {f : α → Job (StateM Memory) β} {memory : Memory}
    {result : Except Fault α} {g : α → Except Fault β} (hx : x memory = (result, memory))
    (hf : ∀ a, f a memory = (g a, memory)) : (x >>= f) memory = (result.bind g, memory) := by
  have hcont : (x >>= f) memory = ExceptT.bindCont f (x memory).1 (x memory).2 := rfl
  rw [hcont, hx]
  cases result with
  | ok a => exact hf a
  | error fault => rfl

theorem bind_memory_eq_ok {x : Job (StateM Memory) α}
    {f : α → Job (StateM Memory) β} {memory after : Memory} {b : β}
    (h : (x >>= f) memory = (.ok b, after)) :
    ∃ a between, x memory = (.ok a, between) ∧ f a between = (.ok b, after) := by
  have hcont : ExceptT.bindCont f (x memory).1 (x memory).2 = (.ok b, after) := h
  cases hx : x memory with
  | mk result between =>
    rw [hx] at hcont
    cases result with
    | error fault => cases hcont
    | ok a => exact ⟨a, between, rfl, hcont⟩

theorem bind_memory_of_ok {x : Job (StateM Memory) α} {memory after : Memory} {a : α}
    (hx : x memory = (.ok a, after)) (f : α → Job (StateM Memory) β) :
    (x >>= f) memory = f a after := by
  have hcont : (x >>= f) memory = ExceptT.bindCont f (x memory).1 (x memory).2 := rfl
  rw [hcont, hx]
  rfl

theorem bind_memory_of_error {x : Job (StateM Memory) α} {memory after : Memory} {fault : Fault}
    (hx : x memory = (.error fault, after)) (f : α → Job (StateM Memory) β) :
    (x >>= f) memory = (.error fault, after) := by
  have hcont : (x >>= f) memory = ExceptT.bindCont f (x memory).1 (x memory).2 := rfl
  rw [hcont, hx]
  rfl

theorem bind_pure_memory {x : Job (StateM Memory) α} {memory after : Memory}
    {result : Except Fault α} (hx : x memory = (result, after)) (b : β) :
    (x >>= fun _ => pure b) memory = (result.map fun _ => b, after) := by
  cases result with
  | ok a => exact bind_memory_of_ok hx _
  | error fault => exact bind_memory_of_error hx _

theorem lift_bind_memory {x : StateM Memory α} {memory : Memory} {a : α}
    (hx : x memory = (a, memory)) (f : α → Job (StateM Memory) β) :
    (ExceptT.lift x >>= f) memory = f a memory := by
  have hcont : (ExceptT.lift x >>= f) memory = f (x memory).1 (x memory).2 := rfl
  rw [hcont, hx]

theorem mapM_memory {f : α → Job (StateM Memory) β} {memory : Memory} {g : α → β}
    (hf : ∀ a, f a memory = (.ok (g a), memory)) (xs : List α) :
    xs.mapM f memory = (.ok (xs.map g), memory) := by
  induction xs with
  | nil => rfl
  | cons x xs ih =>
    rw [List.mapM_cons]
    exact bind_memory (hf x) fun y => bind_memory (g := fun ys => .ok (y :: ys)) ih fun ys => rfl

end Job

/-- A host in memory after some lines are printed. -/
def Memory.printLines (memory : Memory) (lines : List String) : Memory :=
  { memory with printed := memory.printed ++ String.join (lines.map (· ++ "\n")) }

theorem Memory.printLines_nil (memory : Memory) : memory.printLines [] = memory := by
  simp [printLines]

theorem Memory.printLines_cons (memory : Memory) (line : String) (lines : List String) :
    memory.printLines (line :: lines) = (memory.printLines [line]).printLines lines := by
  simp [printLines, String.append_assoc]

theorem Memory.isThere_eq_error {root : Tree (List UInt8)} {path : String} {fault : Fault}
    (h : isThere root path = .error fault) : fault = .badPath .nameTooLong path := by
  unfold isThere at h
  split at h
  next => cases h
  next =>
    split at h
    next => cases h
    next =>
      cases h
      rfl
    next => cases h

theorem Job.printLine_memory (line : String) (memory : Memory) :
    (printLine line : Job (StateM Memory) Unit) memory = (.ok (), memory.printLines [line]) := by
  have hline : memory.printLines [line] =
      { memory with printed := memory.printed ++ (line ++ "\n") } := by
    simp [Memory.printLines]
  rw [hline]
  rfl

theorem Job.printLines_memory (lines : List String) (memory : Memory) :
    (forIn lines PUnit.unit fun text _ => do
      printLine text
      pure (ForInStep.yield PUnit.unit) : Job (StateM Memory) PUnit) memory =
      (.ok PUnit.unit, memory.printLines lines) := by
  induction lines generalizing memory with
  | nil =>
    rw [Memory.printLines_nil]
    rfl
  | cons line lines ih =>
    rw [List.forIn_cons, Memory.printLines_cons, ← ih, bind_assoc,
      bind_memory_of_ok (printLine_memory line memory)]
    rfl

theorem Job.isThere_memory (path : String) (memory : Memory) :
    (ofHost (Host.isThere path) : Job (StateM Memory) Bool) memory =
      (Memory.isThere memory.files path, memory) := rfl

/-- What reading a file of a host in memory gives. -/
def Memory.text (memory : Memory) (path : String) : Except Fault (List Char) :=
  (read memory.files (Path.normal path)).bind fun bytes =>
    match Text.decodeUtf8 bytes with
    | .ok cs => .ok (Text.unifyNewlines cs)
    | .error fault => .error (.undecodable fault)

theorem Job.readText_memory (memory : Memory) (path : String) :
    (readText path : Job (StateM Memory) (List Char)) memory = (memory.text path, memory) := by
  refine bind_memory rfl fun bytes => ?_
  cases Text.decodeUtf8 bytes with
  | ok cs => rfl
  | error fault => rfl

/-- What reading a value from a file of a host in memory gives. -/
def Memory.json (memory : Memory) (path : String) : Except Fault Json :=
  (memory.text path).bind fun source =>
    match Json.read source with
    | .ok value => .ok value
    | .error fault => .error (.unreadableJson source fault)

theorem Job.readJson_memory (memory : Memory) (path : String) :
    (readJson path : Job (StateM Memory) Json) memory = (memory.json path, memory) := by
  refine bind_memory (readText_memory memory path) fun source => ?_
  cases Json.read source with
  | ok value => rfl
  | error fault => rfl

end Restyle
