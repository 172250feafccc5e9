import Restyle.Proofs.Scan.Locality
import Restyle.Scan.Offset

namespace Restyle.Scan

/-- The character at an offset, which counts from the end of the text if it is below zero. -/
def charAt? (source : List Char) (offset : Int) : Option Char :=
  let place := if offset < 0 then offset + source.length else offset
  if place < 0 then none else source[place.toNat]?

section

variable {source read rest cs : List Char} {start : Int} {c quote : Char}

theorem charAt?_natCast (source : List Char) (place : Nat) :
    charAt? source place = source[place]? := by
  have hn : ¬(place : Int) < 0 := by omega
  simp only [charAt?, hn, if_false, Int.toNat_natCast]

theorem charAt?_sub_length {place : Nat} (h : place < source.length) :
    charAt? source (place - source.length) = source[place]? := by
  have hn : (place - source.length : Int) < 0 := by omega
  have hp : ¬(place : Int) < 0 := by omega
  simp only [charAt?, hn, if_true, Int.sub_add_cancel, hp, if_false, Int.toNat_natCast]

/-- An offset with a character, counted from the front. -/
theorem exists_place_of_charAt? (h : charAt? source start = some c) :
    ∃ place : Nat, (place : Int) = (if start < 0 then start + source.length else start) ∧
      source.drop place = c :: source.drop (place + 1) ∧ place < source.length := by
  simp only [charAt?] at h
  generalize hplace : (if start < 0 then start + source.length else start) = place at h ⊢
  split at h
  next => cases h
  next hle =>
    obtain ⟨hlt, rfl⟩ := List.getElem?_eq_some_iff.mp h
    exact ⟨place.toNat, by omega, List.drop_eq_getElem_cons hlt, hlt⟩

/-- What is read from a place on lies in the text, and its last character can be counted from the
front and from the end. -/
theorem charAt?_of_getLast? {place : Nat} (hd : source.drop place = read ++ rest)
    (hl : read.getLast? = some c) :
    0 < read.length ∧ place + read.length ≤ source.length ∧
      charAt? source (place + read.length - 1) = some c ∧
      charAt? source (place + read.length - 1 - source.length) = some c := by
  have hpos : 0 < read.length := by
    cases read with
    | nil => cases hl
    | cons d read => exact Nat.succ_pos _
  have hlength := congrArg List.length hd
  rw [List.length_drop, List.length_append] at hlength
  have hlast : source[place + (read.length - 1)]? = some c := by
    rw [← List.getElem?_drop, hd, List.getElem?_append_left (by omega),
      ← List.getLast?_eq_getElem?, hl]
  have hoffset : (place + read.length - 1 : Int) = (place + (read.length - 1) : Nat) := by omega
  refine ⟨hpos, by omega, ?_, ?_⟩
  · rw [hoffset, charAt?_natCast, hlast]
  · rw [hoffset, charAt?_sub_length (by omega), hlast]

theorem run_frame_getLast? {frame : Frame} (h : run [frame] cs = some (read, rest)) :
    read.getLast? = some frame.closer := run_getLast? (List.cons_ne_nil _ _) h

/-- At the end of a text, a string is read up to its quote, or it goes on as it has begun. -/
theorem runTail_eq_some {frame : Frame} {found : Nat ⊕ Frame} (h : runTail frame cs = some found) :
    (∃ read rest, found = .inl read.length ∧ cs = read ++ rest ∧
      read.getLast? = some frame.closer) ∨
    ∃ next : Frame, found = .inr next ∧ next.closer = frame.closer := by
  fun_induction runTail frame cs generalizing found with
  | case1 => cases h
  | case2 quote dollar =>
    cases h
    exact .inr ⟨_, rfl, rfl⟩
  | case3 quote =>
    cases h
    exact .inr ⟨_, rfl, rfl⟩
  | case4 frame c cs _ next hs ih =>
    obtain ⟨found', hf, rfl⟩ := Option.map_eq_some_iff.mp h
    have hcloser : next.closer = frame.closer := by
      rcases step_closer? frame [] c with ⟨he, _⟩ | ⟨_, he⟩
      · rw [hs] at he
        cases he
      · simpa [hs, closer?] using he
    rcases ih hf with ⟨read, rest, rfl, rfl, hl⟩ | ⟨last, rfl, hl⟩
    · refine .inl ⟨c :: read, rest, rfl, rfl, ?_⟩
      rw [List.getLast?_cons, hl, hcloser]
      rfl
    · exact .inr ⟨last, rfl, hl.trans hcloser⟩
  | case5 frame c cs _ hs =>
    cases h
    rcases step_closer? frame [] c with ⟨_, he⟩ | ⟨he, _⟩
    · exact .inl ⟨[c], cs, rfl, rfl, he.symm⟩
    · exact absurd hs he
  | case6 => cases h

theorem stringEnd_of_run {place : Nat} (hd : source.drop place = quote :: cs) :
    stringEnd source place =
      .ok ((run [.string quote false] cs).map fun found => place + 1 + (found.1.length : Int)) := by
  have hn : ¬(place : Int) < 0 := by omega
  simp [stringEnd, hn, hd]

/-- A string that starts below zero ends where it does in the text from its quote on, or where it
does in the whole text. -/
theorem stringEnd_of_runTail {place : Nat} (hlt : place < source.length)
    (hd : source.drop place = quote :: cs) :
    stringEnd source (place - source.length) =
      .ok ((runTail (.string quote false) cs).bind (Sum.elim
        (fun read => some (place - source.length + 1 + (read : Int)))
        fun frame => (run [frame] source).map fun found => (found.1.length : Int))) := by
  have hn : (place - source.length : Int) < 0 := by omega
  have hp : ¬(place : Int) < 0 := by omega
  have hle : ¬0 ≤ (place - source.length : Int) := by omega
  simp only [stringEnd, hn, hp, hle, if_true, if_false, Int.sub_add_cancel, Int.toNat_natCast, hd]
  cases runTail (.string quote false) cs with
  | none => rfl
  | some found => cases found <;> rfl

/-- A string that ends has two characters at least, lies in the text, and ends with its quote. -/
theorem stringEnd_of_charAt? (h : charAt? source start = some quote) :
    stringEnd source start = .ok none ∨
      ∃ stop, stringEnd source start = .ok (some stop) ∧ start + 2 ≤ stop ∧
        stop ≤ source.length ∧ charAt? source (stop - 1) = some quote := by
  obtain ⟨place, hplace, hdrop, hlt⟩ := exists_place_of_charAt? h
  split at hplace
  next hn =>
    obtain rfl : start = place - source.length := by omega
    rw [stringEnd_of_runTail hlt hdrop]
    cases hr : runTail (.string quote false) (source.drop (place + 1)) with
    | none => exact .inl rfl
    | some found =>
      rcases runTail_eq_some hr with ⟨read, rest, rfl, hread, hl⟩ | ⟨frame, rfl, hcloser⟩
      · obtain ⟨hpos, hle, _, hlast⟩ := charAt?_of_getLast? hread hl
        refine .inr ⟨_, rfl, by omega, by omega, (congrArg _ ?_).trans hlast⟩
        omega
      · cases hrun : run [frame] source with
        | none => exact .inl (by simp [hrun])
        | some found =>
          obtain ⟨read, rest⟩ := found
          have hl := run_frame_getLast? hrun
          rw [hcloser, Frame.closer] at hl
          have hread : source.drop 0 = read ++ rest := run_append hrun
          obtain ⟨hpos, hle, hlast, _⟩ := charAt?_of_getLast? hread hl
          refine .inr ⟨read.length, by simp [hrun], by omega, by omega, (congrArg _ ?_).trans hlast⟩
          omega
  next =>
    subst hplace
    rw [stringEnd_of_run hdrop]
    cases hrun : run [.string quote false] (source.drop (place + 1)) with
    | none => exact .inl rfl
    | some found =>
      obtain ⟨read, rest⟩ := found
      obtain ⟨hpos, hle, hlast, _⟩ :=
        charAt?_of_getLast? (run_append hrun) (run_frame_getLast? hrun)
      refine .inr ⟨place + 1 + read.length, rfl, by omega, by omega, (congrArg _ ?_).trans hlast⟩
      omega

end

end Restyle.Scan
