import Restyle.Proofs.Scan.Interpolation
import Restyle.Proofs.Scan.Split

namespace Restyle

variable {σ β : Type}

/-- One round of a recursion: it stops with a result, or it asks for the result of another state and
goes on with that. -/
inductive Round (σ β : Type) where
  | stop (result : β)
  | ask (state : σ) (resume : β → Round σ β)

namespace Round

/-- The round of a loop that goes on with a state. -/
def next (state : σ) : Round σ β := .ask state .stop

/-- What a round comes to with the answers that it gets, if it gets them. -/
def eval (answer : σ → Option β) : Round σ β → Option β
  | .stop result => some result
  | .ask state resume => (answer state).bind fun result => (resume result).eval answer

/-- That a round comes to a result and asks only for states below a bound, which `f` answers. -/
inductive Leads (size : σ → Nat) (f : σ → β) (bound : Nat) : Round σ β → β → Prop where
  | stop (result : β) : Leads size f bound (.stop result) result
  | ask {state : σ} {resume : β → Round σ β} {result : β} (hlt : size state < bound)
      (h : Leads size f bound (resume (f state)) result) :
      Leads size f bound (.ask state resume) result

section

variable {size : σ → Nat} {f : σ → β} {bound : Nat}

theorem leads_next {state : σ} {result : β} (hlt : size state < bound) (h : f state = result) :
    (next state).Leads size f bound result := by
  subst h
  exact .ask hlt (.stop _)

theorem Leads.eval {round : Round σ β} {result : β} (h : round.Leads size f bound result)
    {answer : σ → Option β} (ha : ∀ state, size state < bound → answer state = some (f state)) :
    round.eval answer = some result := by
  induction h with
  | stop result => rfl
  | ask hlt _ ih =>
    rw [Round.eval, ha _ hlt]
    exact ih

end

end Round

/-- A recursion with its rounds inside of each other, at most so many deep. -/
def play (rounds : σ → Round σ β) : Nat → σ → Option β
  | 0, _ => none
  | depth + 1, state => (rounds state).eval (play rounds depth)

/-- That a recursion ends from each state, with what `f` gives: each round asks only for something
smaller, so that the rounds do not go deeper than the size of the state. -/
structure Terminates (size : σ → Nat) (rounds : σ → Round σ β) (f : σ → β) : Prop where
  shrinks : ∀ state, (rounds state).Leads size f (size state) (f state)
  ends : ∀ state depth, size state < depth → play rounds depth state = some (f state)

theorem Terminates.of_shrinks {size : σ → Nat} {rounds : σ → Round σ β} {f : σ → β}
    (h : ∀ state, (rounds state).Leads size f (size state) (f state)) :
    Terminates size rounds f := by
  refine ⟨h, fun state depth => ?_⟩
  induction depth generalizing state with
  | zero => exact fun hlt => absurd hlt (Nat.not_lt_zero _)
  | succ depth ih => exact fun hlt => (h state).eval fun inner hi => ih inner (by omega)

namespace Scan

/-- The text that is left after reading until the stack is empty. -/
def leftAfter (frames : List Frame) (cs : List Char) : Option (List Char) :=
  (run frames cs).map (·.2)

theorem leftAfter_nil (cs : List Char) : leftAfter [] cs = some cs := by
  rw [leftAfter, run]
  rfl

theorem leftAfter_cons (frame : Frame) (frames : List Frame) (c : Char) (cs : List Char) :
    leftAfter (frame :: frames) (c :: cs) = leftAfter (step (frame :: frames) c) cs := by
  rw [leftAfter, run, Option.map_map]
  rfl

theorem leftAfter_length_le {frames : List Frame} {cs rest : List Char}
    (h : leftAfter frames cs = some rest) : rest.length ≤ cs.length := by
  obtain ⟨⟨read, rest'⟩, hr, rfl⟩ := Option.map_eq_some_iff.mp h
  exact run_length_le hr

/-- A step looks at the top of the stack only. -/
theorem step_append (frame : Frame) (frames below : List Frame) (c : Char) :
    step (frame :: frames ++ below) c = step (frame :: frames) c ++ below := by
  cases frame with
  | escaped quote => rfl
  | string quote dollar =>
    simp only [List.cons_append, step]
    split
    next => rfl
    next =>
      split
      next => rfl
      next => split <;> rfl
  | region opening closing depth =>
    simp only [List.cons_append, step]
    split
    next => rfl
    next =>
      split
      next => rfl
      next =>
        split
        next => cases depth <;> rfl
        next => rfl

/-- What is on top of a stack is read to its end before the rest of the stack. -/
theorem leftAfter_append (frames below : List Frame) (cs : List Char) :
    leftAfter (frames ++ below) cs = (leftAfter frames cs).bind (leftAfter below) := by
  induction cs generalizing frames with
  | nil =>
    cases frames with
    | nil => rfl
    | cons frame frames => rfl
  | cons c cs ih =>
    cases frames with
    | nil => rw [List.nil_append, leftAfter_nil, Option.bind_some]
    | cons frame frames =>
      rw [List.cons_append, leftAfter_cons, leftAfter_cons, ← List.cons_append, step_append, ih]

/-- A reader at work: inside of a string after its quote, or inside of a region after its opening
bracket, with so many regions of its own kind open inside. -/
inductive Reader where
  | string (quote : Char) (left : List Char)
  | region (opening closing : Char) (depth : Nat) (left : List Char)

namespace Reader

/-- The text that is still to be read. -/
def left : Reader → List Char
  | .string _ left => left
  | .region _ _ _ left => left

def frame : Reader → Frame
  | .string quote _ => .string quote false
  | .region opening closing depth _ => .region opening closing depth

/-- What follows the string or the region, if it ends. -/
def result (reader : Reader) : Option (List Char) := leftAfter [reader.frame] reader.left

/-- A call of a reader, after which the reader goes on with the text that is left. -/
def call (callee : Reader) (resume : List Char → Reader) : Round Reader (Option (List Char)) :=
  .ask callee fun found => found.elim (.stop none) fun rest => .next (resume rest)

/-- One round of a reader. A string calls the reader of regions at an interpolation, and a region
calls the reader of strings at a quote. -/
def rounds : Reader → Round Reader (Option (List Char))
  | .string _ [] => .stop none
  | .string quote (c :: tail) =>
    if c == '\\' then .next (.string quote (tail.drop 1))
    else if quote == '\x60' && c == '$' && tail.head? == some '{' then
      call (.region '{' '}' 0 (tail.drop 1)) (.string quote)
    else if c == quote then .stop (some tail)
    else .next (.string quote tail)
  | .region _ _ _ [] => .stop none
  | .region opening closing depth (c :: tail) =>
    if isQuote c then call (.string c tail) (.region opening closing depth)
    else if c == opening then .next (.region opening closing (depth + 1) tail)
    else if c == closing then
      match depth with
      | 0 => .stop (some tail)
      | depth + 1 => .next (.region opening closing depth tail)
    else .next (.region opening closing depth tail)

/-- That a round comes to a result and calls only readers that have less than `bound` to read. -/
abbrev Comes (bound : Nat) (round : Round Reader (Option (List Char)))
    (found : Option (List Char)) : Prop :=
  round.Leads (fun reader : Reader => reader.left.length) result bound found

theorem comes_call {callee : Reader} {resume : List Char → Reader} {bound : Nat}
    {found : Option (List Char)} (hc : callee.left.length < bound)
    (hr : ∀ rest, (resume rest).left = rest)
    (hf : found = callee.result.bind fun rest => (resume rest).result) :
    Comes bound (call callee resume) found := by
  subst hf
  refine .ask hc ?_
  cases hresult : callee.result with
  | none => exact .stop none
  | some rest =>
    have hle : rest.length ≤ callee.left.length := leftAfter_length_le hresult
    exact Round.leads_next (by rw [hr]; omega) rfl

theorem comes_string (quote c : Char) (tail : List Char) :
    Comes (tail.length + 1) (rounds (.string quote (c :: tail)))
      (leftAfter (step [.string quote false] c) tail) := by
  rw [rounds]
  split
  next hescape =>
    refine Round.leads_next (by simp only [left, List.length_drop]; omega) ?_
    cases tail with
    | nil => simp [step, hescape, result, frame, left, leftAfter, run]
    | cons d tail => simp [step, hescape, result, frame, left, leftAfter_cons]
  next hescape =>
    split
    next hopen =>
      simp only [Bool.and_eq_true, beq_iff_eq] at hopen
      obtain ⟨⟨rfl, rfl⟩, hbrace⟩ := hopen
      obtain ⟨inner, rfl⟩ := List.head?_eq_some_iff.mp hbrace
      -- the stack takes two steps into the interpolation, one for the dollar sign and one here
      have hread := leftAfter_cons (.string '\x60' true) [] '{' inner
      have hstack := leftAfter_append [.region '{' '}' 0] [.string '\x60' false] inner
      exact comes_call (by simp only [left, List.length_drop, List.length_cons]; omega)
        (fun _ => rfl) (hread.trans hstack)
    next hopen =>
      have hdollar : (quote == '\x60' && c == '$') = true → tail.head? ≠ some '{' := by
        intro hd hbrace
        exact hopen (by rw [hd, hbrace]; rfl)
      split
      next hquote =>
        obtain rfl := eq_of_beq hquote
        simp only [step, hescape, Bool.false_and, Bool.false_eq_true, if_false, beq_self_eq_true,
          if_true, leftAfter_nil]
        exact .stop (some tail)
      next hquote =>
        refine Round.leads_next (Nat.lt_succ_self _) ?_
        simp only [step, hescape, hquote, Bool.false_and, Bool.false_eq_true, if_false, leftAfter,
          run_string_dollar hdollar]
        rfl

theorem comes_region (opening closing : Char) (depth : Nat) (c : Char) (tail : List Char) :
    Comes (tail.length + 1) (rounds (.region opening closing depth (c :: tail)))
      (leftAfter (step [.region opening closing depth] c) tail) := by
  have hnext : ∀ depth, Comes (tail.length + 1) (.next (.region opening closing depth tail))
      (leftAfter [.region opening closing depth] tail) :=
    fun depth => Round.leads_next (Nat.lt_succ_self _) rfl
  unfold rounds
  simp only [step]
  split
  next hquote =>
    exact comes_call (Nat.lt_succ_self _) (fun _ => rfl)
      (leftAfter_append [.string c false] [.region opening closing depth] tail)
  next hquote =>
    split
    next hopen => exact hnext (depth + 1)
    next hopen =>
      split
      next hclose =>
        cases depth with
        | zero =>
          simp only [leftAfter_nil]
          exact .stop (some tail)
        | succ depth => exact hnext depth
      next hclose => exact hnext depth

theorem result_string (quote : Char) (cs : List Char) :
    result (.string quote cs) = (takeString? (quote :: cs)).map (·.2) := by
  rw [takeString?, Option.map_map]
  rfl

theorem result_region {opening : Char} (closing : Char) (h : isQuote opening = false)
    (cs : List Char) : result (.region opening closing 0 cs) =
      (takeRegion? opening closing (opening :: cs)).map (·.2) := by
  simp only [takeRegion?, h, beq_self_eq_true, Bool.not_false, Bool.and_true, if_true,
    Option.map_map]
  rfl

/-- The readers of strings and of regions, which call each other, come to an end. -/
theorem terminates : Terminates (fun reader : Reader => reader.left.length) rounds result := by
  refine .of_shrinks fun reader => ?_
  cases reader with
  | string quote cs =>
    cases cs with
    | nil => exact .stop none
    | cons c tail =>
      rw [result, left, frame, leftAfter_cons]
      exact comes_string quote c tail
  | region opening closing depth cs =>
    cases cs with
    | nil => exact .stop none
    | cons c tail =>
      rw [result, left, frame, leftAfter_cons]
      exact comes_region opening closing depth c tail

end Reader

/-- The search for interpolations at work: those that are found, and the text after them. -/
structure InterpolationSearch where
  found : List (List Char)
  left : List Char

namespace InterpolationSearch

/-- One round of the search, from the next place where an interpolation opens to its end. -/
def rounds (search : InterpolationSearch) : Round InterpolationSearch (List (List Char)) :=
  match Text.cut? ['$', '{'] search.left with
  | none => .stop search.found
  | some (_, after) =>
    match takeBraces? ('{' :: after) with
    | none => .stop search.found
    | some (region, rest) => .next ⟨search.found ++ ['$' :: region], rest⟩

def result (search : InterpolationSearch) : List (List Char) :=
  search.found ++ interpolations search.left

theorem terminates :
    Terminates (fun search : InterpolationSearch => search.left.length) rounds result := by
  refine .of_shrinks fun search => ?_
  rw [rounds, result]
  split
  next hc =>
    rw [interpolations_of_cut?_none hc, List.append_nil]
    exact .stop search.found
  next gap after hc =>
    rw [interpolations_of_cut?_some hc]
    split
    next hr =>
      rw [interpolations_of_open hr rfl, List.append_nil]
      exact .stop search.found
    next region rest hr =>
      have hlt : rest.length < search.left.length := by
        have hlength := congrArg List.length (Text.cut?_append hc)
        have hrest := takeRegion?_length_lt hr
        simp only [List.length_append, List.length_cons] at hlength hrest
        omega
      refine Round.leads_next hlt ?_
      simp [result, interpolations_of_region hr]

end InterpolationSearch

/-- The splitter at work: the parts that are done, the part that is read, and where it is. -/
structure Splitting where
  done : List (List Char)
  current : List Char
  depth : Int
  offset : Nat
  left : List Char

namespace Splitting

/-- One round of the splitter: over a string or a comment as a whole, or over one character. -/
def rounds (isSeparator : Char → Bool) (s : Splitting) :
    Round Splitting (Except Fault (List (List Char))) :=
  match s.left with
  | [] => .stop (.ok (((s.done ++ [s.current]).map Text.trim).filter (!·.isEmpty)))
  | c :: tail =>
    if isQuote c then
      match takeString? (c :: tail) with
      | none => .stop (.error (.unterminatedString s.offset))
      | some (literal, rest) =>
        .next { s with
          current := s.current ++ literal, offset := s.offset + literal.length, left := rest }
    else
      match afterComment? (c :: tail) with
      | some rest =>
        .next { s with offset := s.offset + ((c :: tail).length - rest.length), left := rest }
      | none =>
        if !isOpening c && !isClosing c && isSeparator c && s.depth == 0 then
          .next { s with
            done := s.done ++ [s.current], current := [], offset := s.offset + 1, left := tail }
        else
          .next { s with
            current := s.current ++ [c], depth := deepen s.depth c, offset := s.offset + 1,
            left := tail }

/-- The parts that are not blank, with those that are found in the text that is left. -/
def finish (done : List (List Char)) (current : List Char) (found : List (List Char)) :
    List (List Char) :=
  ((done ++ extendFirst current found).map Text.trim).filter (!·.isEmpty)

def result (isSeparator : Char → Bool) (s : Splitting) : Except Fault (List (List Char)) :=
  (parts isSeparator s.depth s.offset s.left).map (finish s.done s.current)

section

variable {done : List (List Char)} {current : List Char} {found : Except Fault (List (List Char))}

theorem map_finish_extendFirst {front : List Char} : found.map (finish done (current ++ front)) =
    (found.map (extendFirst front)).map (finish done current) := by
  cases found with
  | error fault => rfl
  | ok found => simp [Except.map, finish, extendFirst_append]

theorem map_finish_cut (h : ∀ {parts}, found = .ok parts → parts ≠ []) :
    found.map (finish (done ++ [current]) []) =
      (found.map ([] :: ·)).map (finish done current) := by
  cases found with
  | error fault => rfl
  | ok found =>
    obtain ⟨part, parts, rfl⟩ := List.exists_cons_of_ne_nil (h rfl)
    simp [Except.map, finish, extendFirst]

end

theorem result_start (isSeparator : Char → Bool) (cs : List Char) :
    result isSeparator ⟨[], [], 0, 0, cs⟩ = splitBy isSeparator cs := by
  simp only [result, splitBy]
  cases h : parts isSeparator 0 0 cs with
  | error fault => rfl
  | ok found =>
    obtain ⟨part, parts, rfl⟩ := List.exists_cons_of_ne_nil (parts_ne_nil h)
    rfl

theorem terminates (isSeparator : Char → Bool) :
    Terminates (fun s : Splitting => s.left.length) (rounds isSeparator) (result isSeparator) := by
  refine .of_shrinks fun s => ?_
  obtain ⟨done, current, depth, offset, left⟩ := s
  simp only [result]
  fun_cases parts isSeparator depth offset left with
  | case1 =>
    simp only [rounds, Except.map, finish, extendFirst, List.append_nil]
    exact .stop _
  | case2 c tail hq hs =>
    simp only [rounds, hq, hs, if_true]
    exact .stop _
  | case3 c tail hq literal rest hs =>
    simp only [rounds, hq, hs, if_true]
    exact Round.leads_next (takeString?_length_lt hs) map_finish_extendFirst
  | case4 c tail hq rest hc =>
    simp only [rounds, hq, hc]
    exact Round.leads_next (afterComment?_length_lt hc) rfl
  | case5 c tail hq hc hsep =>
    simp only [rounds, hq, hc, hsep, if_true]
    exact Round.leads_next (Nat.lt_succ_self _) (map_finish_cut parts_ne_nil)
  | case6 c tail hq hc hsep =>
    simp only [rounds, hq, hc, hsep]
    exact Round.leads_next (Nat.lt_succ_self _) map_finish_extendFirst

end Splitting

/-- The search for a mark at work: how deep and where it is. -/
structure MarkSearch where
  depth : Int
  index : Nat
  left : List Char

namespace MarkSearch

/-- One round of the search: over a string as a whole, or over one character. -/
def rounds (isMark : Char → Bool) (search : MarkSearch) : Round MarkSearch (Option Nat) :=
  match search.left with
  | [] => .stop none
  | c :: tail =>
    if isQuote c then
      match takeString? (c :: tail) with
      | none => .stop none
      | some (literal, rest) =>
        .next { search with index := search.index + literal.length, left := rest }
    else if !isOpening c && !isClosing c && isMark c && search.depth == 0 then
      .stop (some search.index)
    else .next ⟨deepen search.depth c, search.index + 1, tail⟩

def result (isMark : Char → Bool) (search : MarkSearch) : Option Nat :=
  (cutAt? isMark search.depth search.left).map fun found => search.index + found.1.length

theorem result_start (mark : String) (cs : List Char) :
    result (fun c => single? mark == some c) ⟨0, 0, cs⟩ = find? cs mark := by
  simp only [result, find?, Nat.zero_add]

theorem terminates (isMark : Char → Bool) :
    Terminates (fun search : MarkSearch => search.left.length) (rounds isMark) (result isMark) := by
  refine .of_shrinks fun search => ?_
  obtain ⟨depth, index, left⟩ := search
  simp only [result]
  fun_cases cutAt? isMark depth left with
  | case1 => exact .stop none
  | case2 c tail hq hs =>
    simp only [rounds, hq, hs, if_true]
    exact .stop none
  | case3 c tail hq literal rest hs =>
    simp only [rounds, hq, hs, if_true]
    refine Round.leads_next (takeString?_length_lt hs) ?_
    simp [result, Function.comp_def, Nat.add_assoc]
  | case4 c tail hq hm =>
    simp only [rounds, hq, hm, if_true]
    exact .stop (some index)
  | case5 c tail hq hm =>
    simp only [rounds, hq, hm]
    refine Round.leads_next (Nat.lt_succ_self _) ?_
    simp [result, Function.comp_def, Nat.add_assoc, Nat.add_comm 1]

end MarkSearch

end Scan

end Restyle
