import Timeslice.Proofs.Text.Blank
import Timeslice.Text.Upper

/-! # Upper case and its fixed points

No upper-case character has an upper case other than itself, and none is blank. The mapping is a
table, so this is checked on the table: each range of code points that it leads to is apart from
each range that it changes and from the blanks. It has both cases of a Roman letter lead to the
same, so that the upper case of a text does not depend on them.
-/

namespace Timeslice.Text

/-- The code points from `first` to `last`, or only the even or the odd ones among them. -/
structure Stretch where
  first : Nat
  last : Nat
  parity : Option Nat

namespace Stretch

def Has (s : Stretch) (n : Nat) : Prop := s.first ≤ n ∧ n ≤ s.last ∧ ∀ p ∈ s.parity, n % 2 = p

def point (n : Nat) : Stretch := ⟨n, n, none⟩

/-- The stretch that some of the code points from `first` on lie in, up to `length` further on and
at every `stride` of them. -/
def along (first length stride : Nat) : Stretch :=
  ⟨first, first + length, if Nat.beq length 0 || Nat.beq stride 2 then some (first % 2) else none⟩

def apart (s t : Stretch) : Bool :=
  -- The table is compared pair by pair, so these are comparisons that the kernel computes at once.
  Nat.ble (s.last + 1) t.first || Nat.ble (t.last + 1) s.first ||
    match s.parity, t.parity with
    | some p, some q => !Nat.beq p q
    | _, _ => false

theorem not_has_of_apart {s t : Stretch} (apart : s.apart t) {n : Nat} (here : s.Has n) :
    ¬ t.Has n := by
  obtain ⟨low, high, same⟩ := here
  rintro ⟨low', high', same'⟩
  simp only [Stretch.apart, Bool.or_eq_true, Nat.ble_eq] at apart
  rcases apart with (behind | before) | parities
  · omega
  · omega
  · split at parities
    · rename_i p q hp hq
      have left := same p hp
      have right := same' q hq
      simp [← left, ← right] at parities
    · contradiction

theorem has_point (n : Nat) : (point n).Has n :=
  ⟨Nat.le_refl n, Nat.le_refl n, fun _ given => (Option.not_mem_none _ given).elim⟩

theorem has_along {first length stride distance : Nat} (near : distance ≤ length)
    (regular : distance % stride = 0) : (along first length stride).Has (first + distance) := by
  refine ⟨Nat.le_add_right _ _, Nat.add_le_add_left near _, fun p given => ?_⟩
  unfold along at given
  simp only [Option.mem_def, Option.ite_none_right_eq_some, Bool.or_eq_true, Nat.beq_eq,
    Option.some.injEq] at given
  obtain ⟨zero | rfl, rfl⟩ := given
  · have none_further : distance = 0 := by omega
    rw [none_further, Nat.add_zero]
  · omega

end Stretch

def lowered : List Stretch :=
  caseSpans.map (fun s => .along s.first (s.last - s.first) s.stride) ++
    caseExpansions.map fun entry => .point entry.1

def raised : List Stretch :=
  caseSpans.map (fun s => .along s.upper (s.last - s.first) s.stride) ++
    caseExpansions.flatMap fun entry => entry.2.map .point

def spaces : List Stretch :=
  [⟨0x09, 0x0d, none⟩, .point 0x20, .point 0x85, .point 0xa0, .point 0x1680, ⟨0x2000, 0x200a, none⟩,
    .point 0x2028, .point 0x2029, .point 0x202f, .point 0x205f, .point 0x3000]

theorem raised_apart : raised.all (fun s => (lowered ++ spaces).all s.apart) := by decide +kernel

theorem raised_valid : raised.all (fun s =>
    Nat.ble (s.last + 1) 0xd800 || Nat.ble 0xe000 s.first && Nat.ble (s.last + 1) 0x110000) := by
  decide +kernel

variable {c d : Char} {n : Nat}

theorem CaseSpan.upper?_eq_some_iff {s : CaseSpan} {m : Nat} :
    s.upper? n = some m ↔
      s.first ≤ n ∧ n ≤ s.last ∧ (n - s.first) % s.stride = 0 ∧ m = s.upper + (n - s.first) := by
  simp only [CaseSpan.upper?, Option.ite_none_right_eq_some, Bool.and_eq_true, decide_eq_true_eq,
    beq_iff_eq, Option.some.injEq, and_assoc, eq_comm (a := m)]

theorem has_of_blank (blank : isBlank c) : ∃ s ∈ spaces, s.Has c.toNat := by
  simp only [isBlank, Bool.or_eq_true, Bool.and_eq_true, decide_eq_true_eq, beq_iff_eq] at blank
  simp only [spaces, Stretch.point, Stretch.Has, List.mem_cons, List.not_mem_nil, or_false,
    exists_eq_or_imp, exists_eq_left, Option.not_mem_none, false_implies, implies_true, and_true]
  omega

theorem toNat_ofNat_of_raised {s : Stretch} (member : s ∈ raised) (here : s.Has n) :
    (Char.ofNat n).toNat = n := by
  have valid := List.all_eq_true.1 raised_valid s member
  simp only [Bool.or_eq_true, Bool.and_eq_true, Nat.ble_eq] at valid
  obtain ⟨low, high, -⟩ := here
  have code : n.isValidChar := by
    unfold Nat.isValidChar
    omega
  rw [Char.ofNat, dif_pos code]
  rfl

/-- What is not in one of the ranges that change is its own upper case. -/
theorem upperChar_of_not_lowered (fixed : ∀ s ∈ lowered, ¬ s.Has c.toNat) : upperChar c = [c] := by
  have no_span : caseSpans.findSome? (·.upper? c.toNat) = none := by
    refine List.findSome?_eq_none_iff.2 fun s member => Option.eq_none_iff_forall_ne_some.2 ?_
    intro m mapped
    obtain ⟨low, high, regular, -⟩ := CaseSpan.upper?_eq_some_iff.1 mapped
    have here : (Stretch.along s.first (s.last - s.first) s.stride).Has c.toNat := by
      rw [show c.toNat = s.first + (c.toNat - s.first) by omega]
      exact Stretch.has_along (by omega) regular
    exact fixed _ (List.mem_append_left _ (List.mem_map_of_mem member)) here
  have no_expansion : caseExpansions.lookup c.toNat = none := by
    refine List.lookup_eq_none_iff.2 fun entry member => ?_
    have elsewhere : c.toNat ≠ entry.1 := fun same =>
      fixed (.point entry.1) (List.mem_append_right _ (List.mem_map_of_mem member))
        (same ▸ Stretch.has_point entry.1)
    exact bne_iff_ne.2 elsewhere
  simp only [upperChar, no_span, no_expansion]

/-- A character is its own upper case or has another one, which lies in the ranges that are led
to. -/
theorem upperChar_cases (c : Char) :
    upperChar c = [c] ∨
      upperChar c ≠ [] ∧ ∀ d ∈ upperChar c, ∃ s ∈ raised, s.Has d.toNat := by
  unfold upperChar
  split
  · rename_i m found
    obtain ⟨s, member, mapped⟩ := List.exists_of_findSome?_eq_some found
    obtain ⟨low, high, regular, rfl⟩ := CaseSpan.upper?_eq_some_iff.1 mapped
    refine .inr ⟨List.cons_ne_nil _ _, fun d image => ?_⟩
    have there : Stretch.along s.upper (s.last - s.first) s.stride ∈ raised :=
      List.mem_append_left _ (List.mem_map_of_mem member)
    have near : c.toNat - s.first ≤ s.last - s.first := by omega
    have here : (Stretch.along s.upper (s.last - s.first) s.stride).Has _ :=
      Stretch.has_along near regular
    rw [List.mem_singleton.1 image]
    exact ⟨_, there, by rwa [toNat_ofNat_of_raised there here]⟩
  · split
    · rename_i ns found
      obtain ⟨before, after, whole, -⟩ := List.lookup_eq_some_iff.1 found
      have entry : (c.toNat, ns) ∈ caseExpansions := by
        rw [whole]
        exact List.mem_append_right _ List.mem_cons_self
      refine .inr ⟨?_, fun d image => ?_⟩
      · have filled : caseExpansions.all fun entry => !entry.2.isEmpty := by decide
        simpa using List.all_eq_true.1 filled _ entry
      · obtain ⟨n, part, rfl⟩ := List.mem_map.1 image
        have there : Stretch.point n ∈ raised :=
          List.mem_append_right _ (List.mem_flatMap.2 ⟨_, entry, List.mem_map_of_mem part⟩)
        have here := Stretch.has_point n
        exact ⟨_, there, by rwa [toNat_ofNat_of_raised there here]⟩
    · exact .inl rfl

theorem apart_of_raised {s t : Stretch} (member : s ∈ raised) (other : t ∈ lowered ++ spaces)
    (here : s.Has n) : ¬ t.Has n :=
  Stretch.not_has_of_apart (List.all_eq_true.1 (List.all_eq_true.1 raised_apart s member) t other)
    here

theorem upperChar_idem (image : d ∈ upperChar c) : upperChar d = [d] := by
  rcases upperChar_cases c with fixed | ⟨-, other⟩
  · rw [fixed, List.mem_singleton] at image
    rw [image, fixed]
  · obtain ⟨s, member, here⟩ := other d image
    exact upperChar_of_not_lowered fun t low =>
      apart_of_raised member (List.mem_append_left _ low) here

theorem upperChar_solid (solid : ¬ isBlank c) (image : d ∈ upperChar c) : ¬ isBlank d := by
  rcases upperChar_cases c with fixed | ⟨-, other⟩
  · rw [fixed, List.mem_singleton] at image
    rwa [image]
  · obtain ⟨s, member, here⟩ := other d image
    intro blank
    obtain ⟨t, gap, there⟩ := has_of_blank blank
    exact apart_of_raised member (List.mem_append_right _ gap) here there

theorem upperChar_ne_nil (c : Char) : upperChar c ≠ [] := by
  rcases upperChar_cases c with fixed | ⟨some_there, -⟩
  · rw [fixed]
    exact List.cons_ne_nil _ _
  · exact some_there

theorem upper_upper (cs : List Char) : upper (upper cs) = upper cs := by
  unfold upper
  rw [List.flatMap_assoc]
  refine List.flatMap_congr fun c _ => ?_
  rw [List.flatMap_congr (g := fun d => [d]) fun d image => upperChar_idem image,
    List.flatMap_singleton']

theorem IsField.upper {word : List Char} (h : IsField word) : IsField (upper word) := by
  refine ⟨fun empty => ?_, fun d image => ?_⟩
  · obtain ⟨c, member⟩ := List.exists_mem_of_ne_nil word h.nonempty
    exact upperChar_ne_nil c (List.flatMap_eq_nil_iff.1 empty c member)
  · obtain ⟨c, member, image⟩ := List.mem_flatMap.1 image
    exact upperChar_solid (h.solid c member) image

/-! ## The letters of the Roman alphabet -/

/-- What is no small letter is the lower case of itself alone. -/
theorem eq_of_toLower (lower : c.toLower = d) (other : ¬ d.isLower) : c = d := by
  unfold Char.toLower at lower
  split at lower
  · rename_i capital
    subst lower
    have low : 65 ≤ c.val.toNat := UInt32.le_iff_toNat_le.1 capital.1
    have high : c.val.toNat ≤ 90 := UInt32.le_iff_toNat_le.1 capital.2
    refine (other ?_).elim
    unfold Char.isLower
    simp only [Bool.and_eq_true, decide_eq_true_eq, UInt32.le_iff_toNat_le]
    show 97 ≤ (c.val + 32).toNat ∧ (c.val + 32).toNat ≤ 122
    rw [UInt32.toNat_add]
    show 97 ≤ (c.val.toNat + 32) % 0x100000000 ∧ (c.val.toNat + 32) % 0x100000000 ≤ 122
    omega
  · exact lower

theorem not_isLower_of_isBlank (blank : isBlank c) : ¬ c.isLower := by
  intro small
  unfold Char.isLower at small
  simp only [Bool.and_eq_true, decide_eq_true_eq] at small
  have low : 97 ≤ c.toNat := UInt32.le_iff_toNat_le.1 small.1
  have high : c.toNat ≤ 122 := UInt32.le_iff_toNat_le.1 small.2
  have range := toNat_of_isBlank blank
  omega

theorem toNat_of_isUpper (capital : c.isUpper) : 0x41 ≤ c.toNat ∧ c.toNat ≤ 0x5a := by
  unfold Char.isUpper at capital
  rw [decide_eq_true_eq] at capital
  exact ⟨UInt32.le_iff_toNat_le.1 capital.1, UInt32.le_iff_toNat_le.1 capital.2⟩

theorem toLower_of_not_isUpper (other : ¬ c.isUpper) : c.toLower = c := by
  unfold Char.isUpper at other
  rw [decide_eq_true_eq] at other
  unfold Char.toLower
  exact dif_neg other

theorem isBlank_toLower (c : Char) : isBlank c.toLower = isBlank c := by
  by_cases capital : c.isUpper
  · have solid : ¬ isBlank c := fun blank => by
      have letter := toNat_of_isUpper capital
      have range := toNat_of_isBlank blank
      omega
    have solid' : ¬ isBlank c.toLower := fun blank =>
      solid (eq_of_toLower rfl (not_isLower_of_isBlank blank) ▸ blank)
    rw [Bool.eq_false_iff.2 solid, Bool.eq_false_iff.2 solid']
  · rw [toLower_of_not_isUpper capital]

theorem trim_map_toLower (cs : List Char) :
    trim (cs.map Char.toLower) = (trim cs).map Char.toLower := by
  have alike : isBlank ∘ Char.toLower = isBlank := funext isBlank_toLower
  rw [trim, trimEnd, trimStart, List.dropWhile_map, alike, ← List.map_reverse, List.dropWhile_map,
    alike, ← List.map_reverse]
  rfl

theorem isField_map_toLower {word : List Char} :
    IsField (word.map Char.toLower) ↔ IsField word := by
  constructor
  · rintro ⟨nonempty, solid⟩
    refine ⟨fun empty => nonempty (List.map_eq_nil_iff.2 empty), fun c member => ?_⟩
    rw [← isBlank_toLower]
    exact solid _ (List.mem_map_of_mem member)
  · rintro ⟨nonempty, solid⟩
    refine ⟨fun empty => nonempty (List.map_eq_nil_iff.1 empty), fun d image => ?_⟩
    obtain ⟨c, member, rfl⟩ := List.mem_map.1 image
    rw [isBlank_toLower]
    exact solid c member

theorem upperChar_toLower (c : Char) : upperChar c.toLower = upperChar c := by
  by_cases capital : c.isUpper
  · obtain ⟨low, high⟩ := toNat_of_isUpper capital
    have fixed : lowered.all (Stretch.apart ⟨0x41, 0x5a, none⟩) := by decide +kernel
    have own : upperChar c = [c] := upperChar_of_not_lowered fun s member =>
      Stretch.not_has_of_apart (List.all_eq_true.1 fixed s member)
        ⟨low, high, fun _ given => (Option.not_mem_none _ given).elim⟩
    have other : ∀ n ≤ 0x5a, 0x41 ≤ n → upperChar (Char.ofNat n).toLower = [Char.ofNat n] := by
      decide +kernel
    rw [own, ← Char.ofNat_toNat c]
    exact other _ high low
  · rw [toLower_of_not_isUpper capital]

/-- The upper case of a text does not depend on the case of its Roman letters. -/
theorem upper_eq_of_toLower {as bs : List Char} (same : as.map Char.toLower = bs.map Char.toLower) :
    upper as = upper bs := by
  have through : ∀ cs : List Char, upper (cs.map Char.toLower) = upper cs := fun cs => by
    unfold upper
    rw [List.flatMap_map]
    exact List.flatMap_congr fun c _ => upperChar_toLower c
  rw [← through as, same, through bs]

end Timeslice.Text
