/-
Fresh names: the candidates that a pattern has numbers for are all different, so that
among one more of them than there are paths in use there is one that is not.
-/
import Mathlib.Data.List.Nodup
import Mathlib.Data.List.Perm.Subperm
import TextMusic.Decimal.Digits
import TextMusic.FreshName

namespace TextMusic

namespace Path

/-! ## The last part of a path -/

theorem segments_ne_nil (path : List Char) : segments path ≠ [] := by
  cases path with
  | nil => simp [segments]
  | cons c rest =>
      by_cases hc : c = '/'
      · simp [segments, hc]
      · cases hparts : segments rest <;> simp [segments, hc, hparts]

theorem segments_slash (rest : List Char) :
    segments ('/' :: rest) = [] :: segments rest := by
  simp [segments]

/-- A character that is no slash goes to the first part. -/
theorem segments_cons {c : Char} (hc : c ≠ '/') {part : List Char}
    {parts : List (List Char)} {rest : List Char} (h : segments rest = part :: parts) :
    segments (c :: rest) = (c :: part) :: parts := by
  simp [segments, hc, h]

theorem segments_append_slash (front back : List Char) :
    segments (front ++ '/' :: back) = segments front ++ segments back := by
  induction front with
  | nil => exact segments_slash back
  | cons c rest ih =>
      by_cases hc : c = '/'
      · rw [hc, List.cons_append, segments_slash, segments_slash, ih, List.cons_append]
      · obtain ⟨part, parts, hparts⟩ := List.exists_cons_of_ne_nil (segments_ne_nil rest)
        rw [hparts, List.cons_append] at ih
        rw [List.cons_append, segments_cons hc ih, segments_cons hc hparts,
          List.cons_append]

theorem segments_of_not_mem {name : List Char} (h : '/' ∉ name) :
    segments name = [name] := by
  induction name with
  | nil => rfl
  | cons c rest ih =>
      rw [List.mem_cons, not_or] at h
      exact segments_cons (Ne.symm h.1) (ih h.2)

theorem slash_not_mem_of_mem_segments {path part : List Char} (h : part ∈ segments path) :
    '/' ∉ part := by
  induction path generalizing part with
  | nil =>
      rw [segments, List.mem_singleton] at h
      simp [h]
  | cons c rest ih =>
      by_cases hc : c = '/'
      · rw [hc, segments_slash, List.mem_cons] at h
        rcases h with rfl | h
        · simp
        · exact ih h
      · obtain ⟨first, parts, hparts⟩ := List.exists_cons_of_ne_nil (segments_ne_nil rest)
        rw [segments_cons hc hparts, List.mem_cons] at h
        rcases h with rfl | h
        · have hfirst : '/' ∉ first := ih (hparts ▸ List.mem_cons_self)
          simpa [Ne.symm hc] using hfirst
        · exact ih (hparts ▸ List.mem_cons_of_mem first h)

/-- Neither an anchor nor what leads nowhere touches a last part that is a name. -/
theorem getLast?_segments_splitAnchor {path name : List Char}
    (h : (segments path).getLast? = some name) (hname : isIdle name = false) :
    (segments (splitAnchor path).2).getLast? = some name := by
  have hskip : ∀ part rest, (part :: segments rest).getLast? = (segments rest).getLast? :=
    fun part rest => by
      obtain ⟨first, parts, hparts⟩ := List.exists_cons_of_ne_nil (segments_ne_nil rest)
      rw [hparts, List.getLast?_cons_cons]
  fun_cases splitAnchor path with
  | case1 rest =>
      rw [segments_slash, hskip] at h
      exact h
  | case2 =>
      have hdot : ['.'] = name := Option.some.inj h
      rw [← hdot] at hname
      simp [isIdle] at hname
  | case3 rest =>
      have hdot : segments ('.' :: '/' :: rest) = ['.'] :: segments rest :=
        segments_cons (by decide) (segments_slash rest)
      rw [hdot, hskip] at h
      rw [segments_slash, hskip]
      exact h
  | case4 => exact h

theorem getLast?_dropIdleEnd {parts : List (List Char)} {name : List Char}
    (h : parts.getLast? = some name) (hname : isIdle name = false) :
    (dropIdleEnd parts).getLast? = some name := by
  obtain ⟨front, rfl⟩ := List.getLast?_eq_some_iff.mp h
  simp [dropIdleEnd, hname]

theorem fileName?_eq_some {path name : List Char}
    (h : (segments path).getLast? = some name) (hidle : isIdle name = false)
    (hup : name ≠ ['.', '.']) : fileName? path = some name := by
  have hlast := getLast?_dropIdleEnd (getLast?_segments_splitAnchor h hidle) hidle
  simp [fileName?, hlast, hup]

theorem getLast?_segments_push (path : List Char) {name : List Char} (h : '/' ∉ name) :
    (segments (push path name)).getLast? = some name := by
  have hbehind : ∀ front, (segments (front ++ '/' :: name)).getLast? = some name :=
    fun front => by
      rw [segments_append_slash, segments_of_not_mem h, List.getLast?_concat]
  fun_cases push path name with
  | case1 => rw [segments_of_not_mem h, List.getLast?_singleton]
  | case2 hslash =>
      obtain ⟨front, rfl⟩ := List.getLast?_eq_some_iff.mp hslash
      rw [List.append_assoc]
      exact hbehind front
  | case3 => exact hbehind path

/-- A name put behind a path is the name of its file. -/
theorem fileName?_push (path : List Char) {name : List Char} (hslash : '/' ∉ name)
    (hidle : isIdle name = false) (hup : name ≠ ['.', '.']) :
    fileName? (push path name) = some name :=
  fileName?_eq_some (getLast?_segments_push path hslash) hidle hup

theorem fileName?_setFileName (path : List Char) {name : List Char} (hslash : '/' ∉ name)
    (hidle : isIdle name = false) (hup : name ≠ ['.', '.']) :
    fileName? (setFileName path name) = some name := by
  fun_cases setFileName path name with
  | case1 => exact fileName?_push _ hslash hidle hup
  | case2 => exact fileName?_push _ hslash hidle hup

theorem slash_not_mem_of_fileName? {path name : List Char}
    (h : fileName? path = some name) :
    '/' ∉ name := by
  rw [fileName?] at h
  split at h
  · cases h
  · rename_i last hlast
    split_ifs at h
    cases h
    have hmem := List.mem_of_getLast? hlast
    rw [dropIdleEnd, List.mem_reverse] at hmem
    exact slash_not_mem_of_mem_segments
      (List.mem_reverse.mp ((List.dropWhile_sublist isIdle).mem hmem))

/-- A name is split at a dot or stays whole. -/
theorem splitAtDot_eq (name : List Char) :
    splitAtDot name = (name, none) ∨
      ∃ stem extension, splitAtDot name = (stem, some extension) ∧
        name = stem ++ '.' :: extension := by
  fun_cases splitAtDot name with
  | case1 => exact .inl rfl
  | case2 reversed extension hstem =>
      cases hdrop : reversed.dropWhile (· ≠ '.') with
      | nil =>
          rw [hdrop] at hstem
          exact absurd rfl hstem
      | cons c stem =>
          have hdot := List.head?_dropWhile_not (· ≠ '.') reversed
          rw [hdrop] at hdot
          obtain rfl : c = '.' := by simpa using hdot
          have hwhole : reversed.takeWhile (· ≠ '.') ++ '.' :: stem = name.reverse := by
            rw [← hdrop]
            exact List.takeWhile_append_dropWhile
          refine .inr ⟨stem.reverse, extension, rfl, ?_⟩
          rw [← List.reverse_reverse name, ← hwhole]
          simp [extension]

end Path

/-! ## Candidates -/

namespace FreshName

open TextMusic.Path

/-- What stands before the number in the variants of a pattern. -/
def stemOf (pattern : List Char) : List Char :=
  (stem? pattern).getD ['t', 'e', 'x', 't', 'u', 'n', 'e']

/-- What stands behind the number in the variants of a pattern. -/
def extensionOf (pattern : List Char) : List Char :=
  (extension? pattern).getD ['l', 'o', 'g']

theorem numbered_eq (pattern : List Char) (i : Int32) :
    numbered pattern i =
      stemOf pattern ++ '-' :: ((toString i).toList ++ '.' :: extensionOf pattern) := by
  simp [numbered, stemOf, extensionOf]

/-- A number that is not negative is written in its digits. -/
theorem toList_toString_ofNat {n : Nat} (h : n ≤ reach) :
    (toString (Int32.ofNat n)).toList = Nat.toDigits 10 n := by
  have hvalue : (Int32.ofNat n).toInt = n := Int32.toInt_ofNat_of_lt (Nat.lt_succ_of_le h)
  change ((Int32.ofNat n).toInt.repr).toList = _
  rw [hvalue]
  exact Nat.toList_repr

/-- A number is written in digits, with a dash in front if it is negative. -/
theorem toString_cases (i : Int32) :
    0 ≤ i.toInt ∧ (toString i).toList = i.toInt.toNat.repr.toList ∨
      i.toInt < 0 ∧ (toString i).toList = '-' :: (-i.toInt).toNat.repr.toList := by
  change 0 ≤ i.toInt ∧ i.toInt.repr.toList = _ ∨ i.toInt < 0 ∧ i.toInt.repr.toList = _
  rw [Int.repr_eq_if]
  split_ifs with hsign
  · exact .inl ⟨hsign, rfl⟩
  · exact .inr ⟨Int.not_le.mp hsign, String.toList_append⟩

theorem slash_not_mem_toString (i : Int32) : '/' ∉ (toString i).toList := by
  have hdigits : ∀ n : Nat, '/' ∉ n.repr.toList := not_mem_repr rfl
  rcases toString_cases i with ⟨-, htext⟩ | ⟨-, htext⟩
  · rw [htext]
    exact hdigits _
  · rw [htext, List.mem_cons, not_or]
    exact ⟨by decide, hdigits _⟩

/-- Different numbers are written differently. -/
theorem toString_injective {i j : Int32} (h : (toString i).toList = (toString j).toList) :
    i = j := by
  have hdash : ∀ n : Nat, '-' ∉ n.repr.toList := not_mem_repr rfl
  have hnatural : ∀ {m n : Nat}, m.repr.toList = n.repr.toList → m = n :=
    fun h => repr_inj (String.toList_injective h)
  rw [← Int32.toInt_inj]
  rcases toString_cases i with ⟨hi, hleft⟩ | ⟨hi, hleft⟩ <;>
    rcases toString_cases j with ⟨hj, hright⟩ | ⟨hj, hright⟩ <;> rw [hleft, hright] at h
  · have hequal := hnatural h
    omega
  · exact absurd (h ▸ List.mem_cons_self) (hdash i.toInt.toNat)
  · exact absurd (h.symm ▸ List.mem_cons_self) (hdash j.toInt.toNat)
  · have hequal := hnatural (List.cons.inj h).2
    omega

/-- Without the name of a file the variants have stem and extension of their own; else the
name is put together from them, or is their stem. -/
theorem fileName?_cases (pattern : List Char) :
    fileName? pattern = none ∧ stemOf pattern = ['t', 'e', 'x', 't', 'u', 'n', 'e'] ∧
        extensionOf pattern = ['l', 'o', 'g'] ∨
      fileName? pattern = some (stemOf pattern) ∧ extensionOf pattern = ['l', 'o', 'g'] ∨
        fileName? pattern = some (stemOf pattern ++ '.' :: extensionOf pattern) := by
  cases hname : fileName? pattern with
  | none => simp [stemOf, extensionOf, stem?, extension?, hname]
  | some name =>
      rcases splitAtDot_eq name with hsplit | ⟨stem, extension, hsplit, rfl⟩
      · simp [stemOf, extensionOf, stem?, extension?, hname, hsplit]
      · simp [stemOf, extensionOf, stem?, extension?, hname, hsplit]

theorem slash_not_mem_numbered (pattern : List Char) (i : Int32) :
    '/' ∉ numbered pattern i := by
  have hparts : '/' ∉ stemOf pattern ∧ '/' ∉ extensionOf pattern := by
    rcases fileName?_cases pattern with
      ⟨-, hstem, hextension⟩ | ⟨hname, hextension⟩ | hname
    · rw [hstem, hextension]
      decide
    · rw [hextension]
      exact ⟨slash_not_mem_of_fileName? hname, by decide⟩
    · have hslash := slash_not_mem_of_fileName? hname
      rw [List.mem_append, List.mem_cons, not_or, not_or] at hslash
      exact ⟨hslash.1, hslash.2.2⟩
  simp [numbered_eq, slash_not_mem_toString, hparts]

theorem dash_mem_numbered (pattern : List Char) (i : Int32) :
    '-' ∈ numbered pattern i := by
  simp [numbered_eq]

theorem isIdle_numbered (pattern : List Char) (i : Int32) :
    isIdle (numbered pattern i) = false := by
  have hdash := dash_mem_numbered pattern i
  have hne : ∀ part, '-' ∉ part → numbered pattern i ≠ part := fun part hpart heq =>
    hpart (heq ▸ hdash)
  simp [isIdle, hne [], hne ['.']]

theorem numbered_ne_up (pattern : List Char) (i : Int32) :
    numbered pattern i ≠ ['.', '.'] := by
  intro heq
  have hdash := dash_mem_numbered pattern i
  rw [heq] at hdash
  simp at hdash

theorem numbered_injective (pattern : List Char) :
    Function.Injective (numbered pattern) := by
  intro i j h
  rw [numbered_eq, numbered_eq, List.append_cancel_left_eq, List.cons.injEq] at h
  exact toString_injective (List.append_cancel_right h.2)

/-- From one on, as many numbers as 32 bits tell apart are different. -/
theorem ofNat_succ_inj {i j : Nat} (hi : i < Int32.size) (hj : j < Int32.size)
    (h : Int32.ofNat (i + 1) = Int32.ofNat (j + 1)) : i = j := by
  have hbits := congrArg (fun number : Int32 => number.toBitVec.toNat) h
  change (i + 1) % 4294967296 = (j + 1) % 4294967296 at hbits
  change i < 4294967296 at hi
  change j < 4294967296 at hj
  omega

theorem fileName?_candidate_succ (pattern : List Char) (i : Nat) :
    fileName? (candidate pattern (i + 1)) =
      some (numbered pattern (Int32.ofNat (i + 1))) :=
  fileName?_setFileName _ (slash_not_mem_numbered pattern _) (isIdle_numbered pattern _)
    (numbered_ne_up pattern _)

/-- A variant is longer than the name that it is made from. -/
theorem fileName?_ne_numbered (pattern : List Char) (i : Int32) :
    fileName? pattern ≠ some (numbered pattern i) := by
  intro h
  have hlength := congrArg List.length (numbered_eq pattern i)
  rcases fileName?_cases pattern with ⟨hnone, -⟩ | ⟨hname, -⟩ | hname
  · simp [hnone] at h
  all_goals
    rw [hname, Option.some.injEq] at h
    rw [← h] at hlength
    simp only [List.length_append, List.length_cons] at hlength
    omega

/-- The pattern and one variant for each number are all different. -/
theorem candidate_inj {pattern : List Char} {i j : Nat} (hi : i ≤ Int32.size)
    (hj : j ≤ Int32.size) (h : candidate pattern i = candidate pattern j) : i = j := by
  cases i with
  | zero =>
      cases j with
      | zero => rfl
      | succ j =>
          have hname := fileName?_candidate_succ pattern j
          rw [← h] at hname
          exact absurd hname (fileName?_ne_numbered pattern _)
  | succ i =>
      have hname := fileName?_candidate_succ pattern i
      rw [h] at hname
      cases j with
      | zero => exact absurd hname (fileName?_ne_numbered pattern _)
      | succ j =>
          rw [fileName?_candidate_succ, Option.some.injEq] at hname
          exact congrArg Nat.succ
            (ofNat_succ_inj hi hj (numbered_injective pattern hname).symm)

/-! ## The first candidate -/

/-- Candidate `i` is the first that is not taken. -/
structure IsFirst (taken : List Char → Prop) (pattern : List Char) (i : Nat) : Prop where
  free : ¬ taken (candidate pattern i)
  earlier : ∀ j < i, taken (candidate pattern j)

theorem IsFirst.le {taken : List Char → Prop} {pattern : List Char} {i j : Nat}
    (h : IsFirst taken pattern i) (hj : ¬ taken (candidate pattern j)) : i ≤ j := by
  by_contra hlt
  exact hj (h.earlier j (Nat.lt_of_not_le hlt))

/-- Below a candidate that is not taken there is a first one. -/
theorem exists_isFirst (taken : List Char → Prop) {pattern : List Char} {n : Nat}
    (h : ¬ taken (candidate pattern n)) : ∃ i ≤ n, IsFirst taken pattern i := by
  induction n using Nat.strongRecOn with
  | ind n ih =>
      by_cases hearlier : ∀ j < n, taken (candidate pattern j)
      · exact ⟨n, Nat.le_refl n, h, hearlier⟩
      · obtain ⟨j, hj, hfree⟩ : ∃ j < n, ¬ taken (candidate pattern j) := by
          simpa using hearlier
        obtain ⟨i, hi, hfirst⟩ := ih j hj hfree
        exact ⟨i, Nat.le_trans hi (Nat.le_of_lt hj), hfirst⟩

/-- Different candidates are different paths in use. -/
theorem le_length_of_mem {used : List (List Char)} {pattern : List Char} {n : Nat}
    (hn : n ≤ Int32.size) (h : ∀ i < n, candidate pattern i ∈ used) :
    n ≤ used.length := by
  have hsubset : (List.range n).map (candidate pattern) ⊆ used := by
    intro path hpath
    obtain ⟨i, hi, rfl⟩ := List.mem_map.mp hpath
    exact h i (List.mem_range.mp hi)
  have hnodup : ((List.range n).map (candidate pattern)).Nodup := by
    refine List.Nodup.map_on ?_ List.nodup_range
    intro i hi j hj heq
    have hbelow : ∀ {k}, k ∈ List.range n → k ≤ Int32.size := fun hk =>
      Nat.le_trans (Nat.le_of_lt (List.mem_range.mp hk)) hn
    exact candidate_inj (hbelow hi) (hbelow hj) heq
  have hlength := (List.subperm_of_subset hnodup hsubset).length_le
  rwa [List.length_map, List.length_range] at hlength

/-- The fresh name is the first candidate that is not in use, if the numbers reach it. -/
theorem fresh?_eq_some_iff {used : List (List Char)} {pattern found : List Char} :
    fresh? used pattern = some found ↔
      ∃ i < reach, IsFirst (· ∈ used) pattern i ∧ found = candidate pattern i := by
  rw [fresh?]
  simp only [List.find?_map, Option.map_eq_some_iff, List.find?_range_eq_some,
    Function.comp_apply, decide_eq_true_eq, List.mem_range, Nat.lt_min]
  constructor
  · rintro ⟨i, ⟨hfree, ⟨-, hi⟩, hearlier⟩, rfl⟩
    exact ⟨i, hi, ⟨hfree, fun j hj => by simpa using hearlier j hj⟩, rfl⟩
  · rintro ⟨i, hi, hfirst, rfl⟩
    have hlength : i ≤ used.length :=
      le_length_of_mem (Nat.le_trans (Nat.le_of_lt hi) (by decide)) hfirst.earlier
    exact ⟨i, ⟨hfirst.free, ⟨Nat.lt_succ_of_le hlength, hi⟩,
      fun j hj => by simpa using hfirst.earlier j hj⟩, rfl⟩

/-- There is no fresh name where the numbers reach only candidates in use. -/
theorem fresh?_eq_none_iff {used : List (List Char)} {pattern : List Char} :
    fresh? used pattern = none ↔ ∀ i < reach, candidate pattern i ∈ used := by
  rw [Option.eq_none_iff_forall_ne_some]
  constructor
  · intro hnone i hi
    by_contra hfree
    obtain ⟨k, hk, hfirst⟩ := exists_isFirst (· ∈ used) hfree
    exact hnone _ (fresh?_eq_some_iff.mpr ⟨k, Nat.lt_of_le_of_lt hk hi, hfirst, rfl⟩)
  · intro hall found hfound
    obtain ⟨i, hi, hfirst, -⟩ := fresh?_eq_some_iff.mp hfound
    exact hfirst.free (hall i hi)

end FreshName

end TextMusic
