import Restyle.Proofs.Scan.Sublist
import Restyle.Proofs.SelfContained

namespace Restyle.InlinePattern

/-- How many digits the number in the braces of an attribute has, if they are too many. -/
def Attribute.excess? (a : Attribute) : Option Nat :=
  match a.kind with
  | .quoted | .bare => none
  | _ => Numeral.excess? (Text.trim (Expression.inside a.raw))

/-- That the tag at a header can be read: no style in it is a number with too many digits. -/
def CanRead (hit : Scan.Hit String) : Prop :=
  ∀ body rest, takeTag? hit.rest = some (body, rest) →
    ∀ a ∈ readAttributes body, a.isPassthrough = false → a.excess? = none

/-- What a record tells of its header: where it is and what it names, and whether the tag has an
end. -/
structure IsRecord (source : List Char) (hit : Scan.Hit String) (p : InlinePattern) : Prop where
  location : p.location = Location.ofOffset source hit.offset
  tag : p.tag = hit.value
  failed : p.failed = true ↔ takeTag? hit.rest = none

theorem toProperty_returns (a : Attribute) :
    ReturnsIff (a.excess? = none) (fun _ => True) (·.isMisnumbered = true) a.toProperty := by
  unfold Attribute.excess? Attribute.toProperty
  cases a.kind with
  | quoted => exact (ReturnsIff.pure _ trivial).of_iff (by simp)
  | bare => exact (ReturnsIff.pure _ trivial).of_iff (by simp)
  | braced => exact bracedProperty_returns _ _
  | spread => exact bracedProperty_returns _ _

theorem ofHit_returns (source : List Char) (hit : Scan.Hit String) :
    ReturnsIff (CanRead hit) (IsRecord source hit) (·.isMisnumbered = true)
      (ofHit source hit) := by
  unfold ofHit CanRead
  cases ht : takeTag? hit.rest with
  | none =>
    refine (ReturnsIff.pure _ ⟨rfl, rfl, by simp [ht]⟩).of_iff ?_
    simp
  | some found =>
    obtain ⟨body, rest⟩ := found
    have hstyles := ReturnsIff.mapM
      fun a (_ : a ∈ (readAttributes body).filter (!·.isPassthrough)) => toProperty_returns a
    refine (hstyles.map fun _ _ => ⟨rfl, rfl, by simp [ht]⟩).of_iff ⟨?_, fun h a ha => ?_⟩
    · rintro h body rest ⟨⟩ a ha hp
      exact h a (List.mem_filter.mpr ⟨ha, by simp [hp]⟩)
    · obtain ⟨ha, hp⟩ := List.mem_filter.mp ha
      exact h body rest rfl a ha (by simpa using hp)

theorem spreadName_sublist (region : List Char) : List.Sublist (spreadName region) region :=
  ((Text.trim_sublist _).trans (List.dropWhile_sublist _)).trans
    ((Text.trim_sublist _).trans (Expression.inside_sublist region))

theorem afterEquals?_sublist {cs rest : List Char} (h : afterEquals? cs = some rest) :
    List.Sublist rest cs := by
  unfold afterEquals? at h
  split at h
  next tail he =>
    cases h
    have hskip : List.Sublist ('=' :: tail) cs := he ▸ List.dropWhile_sublist Text.isBlank
    exact (List.dropWhile_sublist _).trans ((List.sublist_cons_self '=' tail).trans hskip)
  next => cases h

/-- What follows an attribute's value, and the value if it is in braces, is cut out of what follows
its name. -/
theorem readAttributeValue_sublist (cs : List Char) :
    ((readAttributeValue cs).2.1 = .braced ∨ (readAttributeValue cs).2.1 = .spread →
      List.Sublist (readAttributeValue cs).1 cs) ∧
      List.Sublist (readAttributeValue cs).2.2 cs := by
  unfold readAttributeValue
  split
  next => exact ⟨by simp, List.Sublist.refl cs⟩
  next rest he =>
    have hrest := afterEquals?_sublist he
    split
    next => exact ⟨by simp, List.nil_sublist cs⟩
    next c tail =>
      split
      next =>
        refine ⟨by simp, ?_⟩
        cases hs : Scan.takeString? (c :: tail) with
        | none => exact List.nil_sublist cs
        | some found =>
          obtain ⟨literal, after⟩ := found
          rw [Scan.takeString?_append hs] at hrest
          exact (List.sublist_append_right literal after).trans hrest
      next =>
        split
        next =>
          cases ht : Scan.takeBraces? (c :: tail) with
          | none => exact ⟨fun _ => hrest, List.nil_sublist cs⟩
          | some found =>
            obtain ⟨region, after⟩ := found
            rw [Scan.takeRegion?_append ht] at hrest
            exact ⟨fun _ => (List.sublist_append_left region after).trans hrest,
              (List.sublist_append_right region after).trans hrest⟩
        next => exact ⟨by simp, hrest⟩

/-- What stands in the braces of an attribute is cut out of the tag. -/
theorem sublist_of_mem_readAttributes {body : List Char} {a : Attribute}
    (hm : a ∈ readAttributes body) (hk : a.kind = .braced ∨ a.kind = .spread) :
    List.Sublist a.raw body := by
  fun_induction readAttributes body with
  | case1 => cases hm
  | case2 c tail hc ih => exact (ih hm).cons c
  | case3 c tail hc hb ht =>
    rw [List.mem_singleton.mp hm]
    exact spreadName_sublist (c :: tail)
  | case4 c tail hc hb region rest ht hl ih =>
    rw [Scan.takeRegion?_append ht]
    rcases List.mem_cons.mp hm with rfl | hm
    · exact (spreadName_sublist region).trans (List.sublist_append_left region rest)
    · exact (ih hm).trans (List.sublist_append_right region rest)
  | case5 c tail hc hb hs hl ih =>
    obtain ⟨hvalue, hrest⟩ := readAttributeValue_sublist (tail.dropWhile continuesAttribute)
    have htail := (List.dropWhile_sublist continuesAttribute).trans (List.sublist_cons_self c tail)
    rcases List.mem_cons.mp hm with rfl | hm
    · exact (hvalue hk).trans htail
    · exact (ih hm).trans (hrest.trans htail)
  | case6 c tail hc hb hs ih => exact (ih hm).cons c

/-- A tag with so few digits after its name can be read. -/
theorem canRead_of_countP {hit : Scan.Hit String} (h : hit.rest.countP Text.isDigit ≤ 4300) :
    CanRead hit := by
  intro body rest ht a ha _
  by_contra hne
  obtain ⟨n, hn⟩ := Option.ne_none_iff_exists'.mp hne
  have hbraced : Numeral.excess? (Text.trim (Expression.inside a.raw)) = some n ∧
      (a.kind = .braced ∨ a.kind = .spread) := by
    unfold Attribute.excess? at hn
    cases hk : a.kind with
    | quoted | bare =>
      rw [hk] at hn
      cases hn
    | braced | spread =>
      rw [hk] at hn
      exact ⟨hn, by simp⟩
  have hraw := (Text.trim_sublist _).trans
    ((Expression.inside_sublist _).trans (sublist_of_mem_readAttributes ha hbraced.2))
  have hcount := Numeral.countP_of_excess? hbraced.1 hraw
  have hbody : body.countP Text.isDigit ≤ hit.rest.countP Text.isDigit := by
    rw [(takeTag?_eq_some ht).1]
    exact (List.sublist_append_left body _).countP_le
  omega

end Restyle.InlinePattern
