/-
The search for a fresh name, check by check.  Every variant of a pattern lies in the
directory of the pattern, and the search ends after at most one check more than there are
paths in use, at the first candidate that is not in use, unless there are as many of these
as numbers.
-/
import Mathlib.Data.List.Dedup
import Mathlib.Data.List.TakeWhile
import TextMusic.FileTree
import TextMusic.Proofs.FreshNames

namespace TextMusic

namespace Path

/-! ## Directories -/

/-- What a path leads through: its anchor, and the parts that lead somewhere. -/
def components (path : List Char) : List Char × List (List Char) :=
  ((splitAnchor path).1, (segments path).filter (!isIdle ·))

/-- What leads to the directory of a path.  Without the name of a file, that is the
path. -/
def directory (path : List Char) : List Char × List (List Char) :=
  match fileName? path with
  | some _ => ((components path).1, (components path).2.dropLast)
  | none => components path

/-- A name in a directory. -/
def inDirectory (directory : List Char × List (List Char)) (name : List Char) :
    List Char × List (List Char) :=
  (directory.1, directory.2 ++ [name])

/-! ### Anchors -/

/-- A path that starts with a part that leads somewhere has no anchor. -/
theorem anchor_eq_nil {path first : List Char} (h : (segments path).head? = some first)
    (hfirst : isIdle first = false) : (splitAnchor path).1 = [] := by
  have hidle : ∀ part, isIdle part = true → (segments path).head? ≠ some part := by
    rintro part hpart hhead
    rw [h, Option.some.injEq] at hhead
    rw [hhead, hpart] at hfirst
    exact Bool.noConfusion hfirst
  fun_cases splitAnchor path with
  | case1 rest => exact absurd (by rw [segments_slash]; rfl) (hidle [] rfl)
  | case2 => exact absurd rfl (hidle ['.'] rfl)
  | case3 rest =>
      have hdot : segments ('.' :: '/' :: rest) = ['.'] :: segments rest :=
        segments_cons (by decide) (segments_slash rest)
      exact absurd (by rw [hdot]; rfl) (hidle ['.'] rfl)
  | case4 => rfl

/-- A path without an anchor starts with a part that leads somewhere, if with anything. -/
theorem head?_segments_of_anchor {path : List Char} (hne : path ≠ [])
    (h : (splitAnchor path).1 = []) :
    ∃ first, (segments path).head? = some first ∧ isIdle first = false := by
  obtain ⟨c, rest, rfl⟩ := List.exists_cons_of_ne_nil hne
  have hslash : c ≠ '/' := by
    rintro rfl
    exact absurd h (List.cons_ne_nil _ _)
  obtain ⟨part, parts, hparts⟩ := List.exists_cons_of_ne_nil (segments_ne_nil rest)
  refine ⟨c :: part, by rw [segments_cons hslash hparts]; rfl, ?_⟩
  by_contra hidle
  obtain ⟨rfl, rfl⟩ : c = '.' ∧ part = [] := by simpa [isIdle] using hidle
  -- Behind the dot there is nothing or a slash, so that the dot is an anchor.
  cases rest with
  | nil => exact absurd h (List.cons_ne_nil _ _)
  | cons d more =>
      by_cases hd : d = '/'
      · rw [hd] at h
        exact absurd h (List.cons_ne_nil _ _)
      · obtain ⟨next, later, hnext⟩ := List.exists_cons_of_ne_nil (segments_ne_nil more)
        rw [segments_cons hd hnext] at hparts
        exact absurd (List.cons.inj hparts).1 (List.cons_ne_nil _ _)

/-- What stands behind a slash does not change the anchor. -/
theorem anchor_append_slash {path : List Char} (hne : path ≠ []) (back : List Char) :
    (splitAnchor (path ++ '/' :: back)).1 = (splitAnchor path).1 := by
  by_cases hanchor : (splitAnchor path).1 = []
  · obtain ⟨first, hfirst, hidle⟩ := head?_segments_of_anchor hne hanchor
    rw [hanchor]
    refine anchor_eq_nil ?_ hidle
    rw [segments_append_slash, List.head?_append_of_ne_nil _ (segments_ne_nil path)]
    exact hfirst
  · fun_cases splitAnchor path with
    | case1 | case2 | case3 => rfl
    | case4 => exact absurd (by simp_all [splitAnchor]) hanchor

/-! ### Names behind a path -/

theorem components_name {name : List Char} (hslash : '/' ∉ name)
    (hidle : isIdle name = false) :
    components name = ([], [name]) := by
  have hsegments := segments_of_not_mem hslash
  have hanchor : (splitAnchor name).1 = [] := anchor_eq_nil (by rw [hsegments]; rfl) hidle
  simp [components, hanchor, hsegments, hidle]

/-- A name put behind a path lies in the directory that the path leads to. -/
theorem components_push (path : List Char) {name : List Char} (hslash : '/' ∉ name)
    (hidle : isIdle name = false) :
    components (push path name) = inDirectory (components path) name := by
  have hbehind : ∀ front, (segments (front ++ '/' :: name)).filter (!isIdle ·) =
      (segments front).filter (!isIdle ·) ++ [name] := fun front => by
    rw [segments_append_slash, segments_of_not_mem hslash, List.filter_append]
    simp [hidle]
  fun_cases push path name with
  | case1 hnone =>
      rw [List.getLast?_eq_none_iff] at hnone
      rw [hnone, components_name hslash hidle]
      rfl
  | case2 hlast =>
      obtain ⟨front, rfl⟩ := List.getLast?_eq_some_iff.mp hlast
      rw [List.append_assoc]
      change components (front ++ '/' :: name) = _
      have hfront : (segments (front ++ ['/'])).filter (!isIdle ·) =
          (segments front).filter (!isIdle ·) := by
        rw [segments_append_slash, List.filter_append]
        exact List.append_nil _
      have hanchor :
          (splitAnchor (front ++ '/' :: name)).1 = (splitAnchor (front ++ ['/'])).1 := by
        cases front with
        | nil => rfl
        | cons c rest =>
            rw [anchor_append_slash (List.cons_ne_nil c rest),
              anchor_append_slash (List.cons_ne_nil c rest)]
      rw [components, hanchor, hbehind, ← hfront]
      rfl
  | case3 last _ hlast =>
      have hne : path ≠ [] := by
        rintro rfl
        exact absurd hlast.symm (Option.some_ne_none last)
      rw [components, anchor_append_slash hne, hbehind]
      rfl

/-! ### The path without its last part -/

theorem segments_join {parts : List (List Char)} (hne : parts ≠ [])
    (hslash : ∀ part ∈ parts, '/' ∉ part) : segments (join parts) = parts := by
  induction parts with
  | nil => exact absurd rfl hne
  | cons part rest ih =>
      obtain ⟨hpart, hrest⟩ := List.forall_mem_cons.mp hslash
      cases rest with
      | nil => exact segments_of_not_mem hpart
      | cons next later =>
          have hjoin :
              join (part :: next :: later) = part ++ '/' :: join (next :: later) := rfl
          rw [hjoin, segments_append_slash, segments_of_not_mem hpart,
            ih (List.cons_ne_nil _ _) hrest]
          rfl

theorem dropIdleEnd_prefix (parts : List (List Char)) : dropIdleEnd parts <+: parts := by
  rw [← List.reverse_suffix, dropIdleEnd, List.reverse_reverse]
  exact List.dropWhile_suffix isIdle

theorem filter_dropIdleEnd (parts : List (List Char)) :
    (dropIdleEnd parts).filter (!isIdle ·) = parts.filter (!isIdle ·) := by
  have hidle : (parts.reverse.takeWhile isIdle).filter (!isIdle ·) = [] := by
    rw [List.filter_eq_nil_iff]
    intro part hpart
    simp [List.mem_takeWhile_imp hpart]
  have hwhole := congrArg (List.filter (!isIdle ·))
    (List.takeWhile_append_dropWhile (p := isIdle) (l := parts.reverse))
  rw [List.filter_append, hidle, List.nil_append] at hwhole
  rw [dropIdleEnd, List.filter_reverse, hwhole, List.filter_reverse, List.reverse_reverse]

/-- What is left when idle parts at the end are dropped ends in a part that leads
somewhere. -/
theorem isIdle_getLast_dropIdleEnd {parts front : List (List Char)} {name : List Char}
    (h : dropIdleEnd parts = front ++ [name]) : isIdle name = false := by
  have hlast := List.head?_dropWhile_not isIdle parts.reverse
  rw [dropIdleEnd, List.reverse_eq_iff, List.reverse_append] at h
  rw [h] at hlast
  simpa using hlast

/-- An anchor is no part that leads somewhere. -/
theorem filter_segments_splitAnchor (path : List Char) :
    (segments (splitAnchor path).2).filter (!isIdle ·) =
      (segments path).filter (!isIdle ·) := by
  fun_cases splitAnchor path with
  | case1 rest => rw [segments_slash]; rfl
  | case2 => rfl
  | case3 rest =>
      have hdot : segments ('.' :: '/' :: rest) = ['.'] :: segments rest :=
        segments_cons (by decide) (segments_slash rest)
      rw [hdot, segments_slash]
      rfl
  | case4 => rfl

/-- Behind the anchor of a path some of its parts can be put together again, if the last
of them leads somewhere. -/
theorem components_join {path : List Char} {parts : List (List Char)}
    (hleading : parts <+: segments (splitAnchor path).2)
    (hlast : ∀ front name, parts = front ++ [name] → isIdle name = false) :
    components ((splitAnchor path).1 ++ join parts) =
      ((splitAnchor path).1, parts.filter (!isIdle ·)) := by
  have hslash : ∀ part ∈ parts, '/' ∉ part := fun part hpart =>
    slash_not_mem_of_mem_segments (hleading.subset hpart)
  have hnil : parts ≠ [[]] := fun h => absurd (hlast [] [] h) (by decide)
  cases hparts : parts with
  | nil =>
      rw [join, List.append_nil]
      fun_cases splitAnchor path <;> rfl
  | cons first rest =>
      rw [hparts] at hslash
      have hjoin : segments (join (first :: rest)) = first :: rest :=
        segments_join (List.cons_ne_nil _ _) hslash
      have hhead : (segments (splitAnchor path).2).head? = some first := by
        obtain ⟨more, hmore⟩ := hleading
        rw [← hmore, hparts]
        rfl
      fun_cases splitAnchor path with
      | case1 whole =>
          change (['/'], (segments ('/' :: join (first :: rest))).filter _) = _
          rw [segments_slash, hjoin]
          rfl
      | case2 =>
          -- The path is a dot alone, and has no parts at all.
          obtain rfl : [] = first := Option.some.inj hhead
          obtain ⟨more, hmore⟩ := hleading
          rw [hparts, List.cons_append] at hmore
          obtain ⟨rfl, -⟩ := List.append_eq_nil_iff.mp (List.cons.inj hmore).2
          exact absurd hparts hnil
      | case3 whole =>
          change (segments ('/' :: whole)).head? = some first at hhead
          rw [segments_slash] at hhead
          obtain rfl : [] = first := Option.some.inj hhead
          cases rest with
          | nil => exact absurd hparts hnil
          | cons next later =>
              have hlater : segments (join (next :: later)) = next :: later :=
                segments_join (List.cons_ne_nil _ _) (List.forall_mem_cons.mp hslash).2
              have hdot : segments ('.' :: '/' :: join (next :: later)) =
                  ['.'] :: next :: later :=
                segments_cons (by decide) (by rw [segments_slash, hlater])
              change (['.'], (segments ('.' :: '/' :: join (next :: later))).filter _) = _
              rw [hdot]
              rfl
      | case4 _ hslashed hdot hdotted =>
          have hunanchored : splitAnchor path = ([], path) := by
            rw [splitAnchor]
            · exact hslashed
            · exact hdot
            · exact hdotted
          rw [hunanchored] at hhead
          have hne : path ≠ [] := by
            rintro rfl
            obtain ⟨more, hmore⟩ := hleading
            rw [hparts, List.cons_append] at hmore
            obtain ⟨rfl, hrest⟩ := List.cons.inj hmore
            rw [(List.append_eq_nil_iff.mp hrest).1] at hparts
            exact hnil hparts
          obtain ⟨other, hother, hidle⟩ :=
            head?_segments_of_anchor hne (congrArg Prod.fst hunanchored)
          obtain rfl : other = first := Option.some.inj (hother.symm.trans hhead)
          have hjoined : (splitAnchor (join (other :: rest))).1 = [] :=
            anchor_eq_nil (by rw [hjoin]; rfl) hidle
          rw [List.nil_append, components, hjoined, hjoin]

/-- The path without its last part leads to the directory. -/
theorem components_parent {path name : List Char} (h : fileName? path = some name) :
    components (parent path) = directory path := by
  have hparts := dropIdleEnd_prefix (segments (splitAnchor path).2)
  obtain ⟨front, last, hfront⟩ : ∃ front last,
      dropIdleEnd (segments (splitAnchor path).2) = front ++ [last] := by
    rw [fileName?] at h
    cases hlast : (dropIdleEnd (segments (splitAnchor path).2)).getLast? with
    | none => simp [hlast] at h
    | some last =>
        obtain ⟨front, hfront⟩ := List.getLast?_eq_some_iff.mp hlast
        exact ⟨front, last, hfront⟩
  have hkept := dropIdleEnd_prefix front
  have hnames :
      (segments path).filter (!isIdle ·) = front.filter (!isIdle ·) ++ [last] := by
    rw [← filter_segments_splitAnchor, ← filter_dropIdleEnd, hfront, List.filter_append]
    simp [isIdle_getLast_dropIdleEnd hfront]
  have hleading : dropIdleEnd front <+: segments (splitAnchor path).2 :=
    hkept.trans ((List.prefix_append front [last]).trans (hfront ▸ hparts))
  have hparent : parent path = (splitAnchor path).1 ++ join (dropIdleEnd front) := by
    rw [parent]
    simp only [hfront, List.dropLast_concat]
  rw [hparent, components_join hleading fun _ _ => isIdle_getLast_dropIdleEnd, directory,
    h, filter_dropIdleEnd]
  simp [components, hnames]

/-- Another last part goes into the same directory. -/
theorem components_setFileName (path : List Char) {name : List Char} (hslash : '/' ∉ name)
    (hidle : isIdle name = false) :
    components (setFileName path name) = inDirectory (directory path) name := by
  cases hname : fileName? path with
  | some old =>
      rw [setFileName, hname]
      dsimp only
      rw [components_push _ hslash hidle, components_parent hname]
  | none =>
      rw [setFileName, hname]
      dsimp only
      rw [components_push _ hslash hidle, directory, hname]

theorem directory_setFileName (path : List Char) {name : List Char} (hslash : '/' ∉ name)
    (hidle : isIdle name = false) (hup : name ≠ ['.', '.']) :
    directory (setFileName path name) = directory path := by
  have hname := fileName?_setFileName path hslash hidle hup
  have hcomponents := components_setFileName path hslash hidle
  rw [directory, hname]
  simp [hcomponents, inDirectory]

end Path

namespace FreshName

open TextMusic.Path

/-! ## Variants -/

theorem directory_candidate (pattern : List Char) (i : Nat) :
    directory (candidate pattern i) = directory pattern := by
  induction i with
  | zero => rfl
  | succ i ih =>
      rw [candidate, directory_setFileName _ (slash_not_mem_numbered pattern _)
        (isIdle_numbered pattern _) (numbered_ne_up pattern _), ih]

/-- A variant is the numbered name in the directory of the pattern. -/
theorem components_candidate_succ (pattern : List Char) (i : Nat) :
    components (candidate pattern (i + 1)) =
      inDirectory (directory pattern) (numbered pattern (Int32.ofNat (i + 1))) := by
  rw [candidate, components_setFileName _ (slash_not_mem_numbered pattern _)
    (isIdle_numbered pattern _), directory_candidate]

/-! ## The search -/

/-- What comes of counting on from the highest number. -/
inductive Overflow where
  /-- The search stops without a name. -/
  | stops
  /-- The search goes on from the lowest number. -/
  | wraps
deriving DecidableEq, Repr

/-- The number behind a number. -/
def Overflow.next? (overflow : Overflow) (i : Int32) : Option Int32 :=
  if overflow = .stops ∧ i = Int32.maxValue then none else some (i + 1)

/-- The search that has come to a path, and that would give the next variant the number
`i`, comes to its outcome after some checks: a path, or no path where it has run out of
numbers. -/
inductive Search (overflow : Overflow) (taken : List Char → Prop) (pattern : List Char) :
    List Char → Int32 → Nat → Option (List Char) → Prop where
  | free {path : List Char} {i : Int32} (h : ¬ taken path) :
      Search overflow taken pattern path i 1 (some path)
  | goOn {path : List Char} {found? : Option (List Char)} {i next : Int32} {checks : Nat}
      (h : taken path) (hnext : overflow.next? i = some next)
      (rest : Search overflow taken pattern
        (setFileName path (numbered pattern i)) next checks found?) :
      Search overflow taken pattern path i (checks + 1) found?
  | stop {path : List Char} {i : Int32} (h : taken path)
      (hnext : overflow.next? i = none) :
      Search overflow taken pattern path i 1 none

/-- The search from a pattern ends at its candidate `i`, which is the first that is not
taken, and it has no other outcome. -/
structure EndsAt (overflow : Overflow) (taken : List Char → Prop) (pattern : List Char)
    (i : Nat) (found : List Char) : Prop where
  search : Search overflow taken pattern pattern 1 (i + 1) (some found)
  only : ∀ checks other?, Search overflow taken pattern pattern 1 checks other? →
    checks = i + 1 ∧ other? = some found
  free : ¬ taken found
  eq_candidate : found = candidate pattern i
  earlier : ∀ j < i, taken (candidate pattern j)

theorem Overflow.next?_ofNat (overflow : Overflow) {i : Nat} (h : i < reach) :
    overflow.next? (Int32.ofNat i) = some (Int32.ofNat (i + 1)) := by
  have hvalue : (Int32.ofNat i).toInt = i := Int32.toInt_ofNat_of_lt (Nat.lt_succ_of_lt h)
  have hmax : Int32.ofNat i ≠ Int32.maxValue := by
    intro heq
    rw [heq] at hvalue
    have hlast : Int32.maxValue.toInt = reach := rfl
    omega
  rw [next?, if_neg fun hboth => hmax hboth.2, Int32.ofNat_add]
  rfl

/-- Where the search goes on it never runs out of numbers. -/
theorem Overflow.next?_wraps (i : Nat) :
    wraps.next? (Int32.ofNat i) = some (Int32.ofNat (i + 1)) := by
  rw [next?, if_neg fun hboth => Overflow.noConfusion hboth.1, Int32.ofNat_add]
  rfl

section

variable {overflow : Overflow} {taken : List Char → Prop} {pattern : List Char}

/-- A search has one outcome only. -/
theorem Search.unique {path : List Char} {found? other? : Option (List Char)} {i : Int32}
    {checks otherChecks : Nat} (h : Search overflow taken pattern path i checks found?)
    (hother : Search overflow taken pattern path i otherChecks other?) :
    otherChecks = checks ∧ other? = found? := by
  induction h generalizing otherChecks with
  | free hfree =>
      cases hother with
      | free => exact ⟨rfl, rfl⟩
      | goOn htaken | stop htaken => exact absurd htaken hfree
  | goOn htaken hnext _ ih =>
      cases hother with
      | free hfree => exact absurd htaken hfree
      | goOn _ hsame hrest =>
          obtain rfl := Option.some.inj (hnext.symm.trans hsame)
          obtain ⟨rfl, rfl⟩ := ih hrest
          exact ⟨rfl, rfl⟩
      | stop _ hnone => exact absurd (hnext.symm.trans hnone) (Option.some_ne_none _)
  | stop htaken hnone =>
      cases hother with
      | free hfree => exact absurd htaken hfree
      | goOn _ hnext => exact absurd (hnext.symm.trans hnone) (Option.some_ne_none _)
      | stop => exact ⟨rfl, rfl⟩

/-- From a candidate the search goes on to a later one, as long as there are numbers and
all candidates before that are taken. -/
theorem Search.ofCandidate {found? : Option (List Char)} {checks i j : Nat}
    (hnext : ∀ k < i + j,
      overflow.next? (Int32.ofNat (k + 1)) = some (Int32.ofNat (k + 2)))
    (hearlier : ∀ k < i + j, taken (candidate pattern k))
    (h : Search overflow taken pattern (candidate pattern (i + j))
      (Int32.ofNat (i + j + 1)) checks found?) :
    Search overflow taken pattern (candidate pattern i) (Int32.ofNat (i + 1)) (checks + j)
      found? := by
  induction j generalizing i with
  | zero => exact h
  | succ j ih =>
      have hshift : i + (j + 1) = i + 1 + j := by omega
      rw [hshift] at hnext hearlier h
      exact .goOn (hearlier i (by omega)) (hnext i (by omega)) (ih hnext hearlier h)

/-- The search goes on to the first candidate that is not taken, if there are numbers up
to it. -/
theorem IsFirst.endsAt {i : Nat} (h : IsFirst taken pattern i)
    (hnext : ∀ k < i, overflow.next? (Int32.ofNat (k + 1)) = some (Int32.ofNat (k + 2))) :
    EndsAt overflow taken pattern i (candidate pattern i) := by
  have hsearch : Search overflow taken pattern pattern 1 (i + 1)
      (some (candidate pattern i)) := by
    have hlast : Search overflow taken pattern (candidate pattern (0 + i))
        (Int32.ofNat (0 + i + 1)) 1 (some (candidate pattern i)) := by
      rw [Nat.zero_add]
      exact .free h.free
    rw [← Nat.zero_add i] at hnext
    have hall := Search.ofCandidate hnext (by simpa using h.earlier) hlast
    rw [Nat.add_comm 1 i] at hall
    exact hall
  exact ⟨hsearch, fun _ _ => hsearch.unique, h.free, rfl, h.earlier⟩

/-- The numbers suffice for the candidates that they reach. -/
theorem IsFirst.endsAt_of_lt {i : Nat} (h : IsFirst taken pattern i) (hi : i < reach) :
    EndsAt overflow taken pattern i (candidate pattern i) :=
  h.endsAt fun _ hk => overflow.next?_ofNat (Nat.lt_of_le_of_lt (Nat.succ_le_of_lt hk) hi)

/-- Where all candidates that the numbers reach are taken, a search that stops there finds
nothing. -/
theorem search_stops (h : ∀ i < reach, taken (candidate pattern i)) :
    Search .stops taken pattern pattern 1 reach none := by
  have hlast : Overflow.stops.next? (Int32.ofNat reach) = none := rfl
  have hnext : ∀ k < 0 + (reach - 1),
      Overflow.stops.next? (Int32.ofNat (k + 1)) = some (Int32.ofNat (k + 2)) := by
    intro k hk
    exact Overflow.stops.next?_ofNat (by omega)
  have hall := Search.ofCandidate hnext (fun k hk => h k (by omega))
    (.stop (h _ (by decide)) hlast)
  exact hall

end

end FreshName

/-! ## In a file tree -/

namespace FileTree

open TextMusic.Path TextMusic.FreshName

/-- A name behind other parts leads to an entry of the tree. -/
theorem exists_entry_of_walk {tree : FileTree} {name : List Char}
    (hidle : isIdle name = false) (hup : name ≠ ['.', '.']) {place : Place}
    {front : List (List Char)} (h : (tree.walk place (front ++ [name])).isOk = true) :
    ∃ entry ∈ tree.entries, entry.1.getLast? = some name := by
  have herror : ∀ failure : PathError,
      (Except.error failure : Except PathError Place).isOk ≠ true :=
    fun failure => Bool.false_ne_true
  induction front generalizing place with
  | nil =>
      cases place with
      | file content => exact absurd h (herror _)
      | above => simp [walk, hidle, hup, herror] at h
      | below names =>
          simp only [List.nil_append, walk, hidle, hup, Bool.false_eq_true, if_false] at h
          split_ifs at h with hsize
          · exact absurd h (herror _)
          · cases hlookup : tree.lookup? (names ++ [name]) with
            | none => simp [hlookup, herror] at h
            | some found =>
                obtain ⟨entry, hentry, -⟩ := Option.map_eq_some_iff.mp hlookup
                have hkey : entry.1 = names ++ [name] := by
                  simpa using List.find?_some hentry
                exact ⟨entry, List.mem_of_find?_eq_some hentry, by simp [hkey]⟩
  | cons part rest ih =>
      rw [List.cons_append] at h
      cases place with
      | file content => exact absurd h (herror _)
      | above =>
          rw [walk] at h
          split_ifs at h
          · exact ih h
          · exact absurd h (herror _)
      | below names =>
          rw [walk] at h
          split_ifs at h
          · exact ih h
          · exact ih h
          · exact absurd h (herror _)
          · split at h
            · exact ih h
            · exact ih h
            · exact absurd h (herror _)

theorem exists_entry_of_exists? {tree : FileTree} {path name : List Char}
    (hpath : (segments path).getLast? = some name) (hidle : isIdle name = false)
    (hup : name ≠ ['.', '.']) (h : tree.exists? path = true) :
    ∃ entry ∈ tree.entries, entry.1.getLast? = some name := by
  have herror : ∀ failure : PathError,
      (Except.error failure : Except PathError Place).isOk ≠ true :=
    fun failure => Bool.false_ne_true
  obtain ⟨front, hfront⟩ := List.getLast?_eq_some_iff.mp hpath
  unfold exists? resolve at h
  split_ifs at h
  · exact absurd h (herror _)
  · exact absurd h (herror _)
  · cases path with
    | nil => exact absurd h (herror _)
    | cons c rest =>
        split at h
        · exact absurd h (herror _)
        · next rest _ heq =>
            rw [heq, segments_slash] at hfront
            cases front with
            | nil =>
                obtain ⟨rfl, -⟩ := List.cons.inj hfront
                exact absurd hidle (by decide)
            | cons part front =>
                rw [(List.cons.inj hfront).2] at h
                exact exists_entry_of_walk hidle hup h
        · rw [hfront] at h
          exact exists_entry_of_walk hidle hup h

theorem getLast?_segments_candidate_succ (pattern : List Char) (i : Nat) :
    (segments (candidate pattern (i + 1))).getLast? =
      some (numbered pattern (Int32.ofNat (i + 1))) := by
  rw [candidate]
  fun_cases setFileName (candidate pattern i)
    (numbered pattern (Int32.ofNat (i + 1))) with
  | case1 | case2 => exact getLast?_segments_push _ (slash_not_mem_numbered pattern _)

section

variable {tree : FileTree} {pattern : List Char}

/-- Different variants that are in use lead to different entries. -/
theorem le_length_of_exists? {n : Nat} (hn : n ≤ Int32.size)
    (h : ∀ i < n, tree.exists? (candidate pattern i) = true) :
    n ≤ tree.entries.length + 1 := by
  cases n with
  | zero => exact Nat.zero_le _
  | succ n =>
      have hsubset :
          (List.range n).map (fun i => some (numbered pattern (Int32.ofNat (i + 1)))) ⊆
          tree.entries.map (·.1.getLast?) := by
        intro last hlast
        obtain ⟨i, hi, rfl⟩ := List.mem_map.mp hlast
        obtain ⟨entry, hentry, hname⟩ := exists_entry_of_exists?
          (getLast?_segments_candidate_succ pattern i) (isIdle_numbered pattern _)
          (numbered_ne_up pattern _) (h (i + 1) (Nat.succ_lt_succ (List.mem_range.mp hi)))
        exact List.mem_map.mpr ⟨entry, hentry, hname⟩
      have hnodup : ((List.range n).map
          (fun i => some (numbered pattern (Int32.ofNat (i + 1))))).Nodup := by
        refine List.Nodup.map_on ?_ List.nodup_range
        intro i hi j hj heq
        have hbelow : ∀ {k}, k ∈ List.range n → k < Int32.size := fun hk =>
          (List.mem_range.mp hk).trans hn
        exact ofNat_succ_inj (hbelow hi) (hbelow hj)
          (numbered_injective pattern (Option.some.inj heq))
      have hlength := (List.subperm_of_subset hnodup hsubset).length_le
      rw [List.length_map, List.length_range, List.length_map] at hlength
      exact Nat.succ_le_succ hlength

theorem exists?_of_mem_usedCandidates {path : List Char}
    (h : path ∈ tree.usedCandidates pattern) : tree.exists? path = true :=
  (List.mem_filter.mp h).2

/-- The candidates that are looked at are enough. -/
theorem mem_usedCandidates {n : Nat} (hn : n ≤ Int32.size)
    (h : ∀ i < n, tree.exists? (candidate pattern i) = true) :
    ∀ i < n, candidate pattern i ∈ tree.usedCandidates pattern := by
  intro i hi
  have hrange : i < tree.entries.length + 2 :=
    (Nat.lt_of_lt_of_le hi (le_length_of_exists? hn h)).trans (Nat.lt_succ_self _)
  exact List.mem_filter.mpr ⟨List.mem_map_of_mem (List.mem_range.mpr hrange), h i hi⟩

theorem isFirst_usedCandidates_iff {i : Nat} (hi : i < reach) :
    IsFirst (· ∈ tree.usedCandidates pattern) pattern i ↔
      IsFirst (tree.exists? · = true) pattern i := by
  have hsize : i + 1 ≤ Int32.size := le_trans (Nat.succ_le_of_lt hi) (by decide)
  constructor
  · intro h
    have hearlier : ∀ j < i, tree.exists? (candidate pattern j) = true := fun j hj =>
      exists?_of_mem_usedCandidates (h.earlier j hj)
    refine ⟨fun hexists => h.free ?_, hearlier⟩
    refine mem_usedCandidates hsize (fun j hj => ?_) i (Nat.lt_succ_self i)
    rcases Nat.lt_succ_iff_lt_or_eq.mp hj with hlt | rfl
    · exact hearlier j hlt
    · exact hexists
  · intro h
    exact ⟨fun hmem => h.free (exists?_of_mem_usedCandidates hmem),
      mem_usedCandidates ((Nat.le_succ i).trans hsize) h.earlier⟩

/-- In a tree the fresh name is the first candidate that leads to nothing, if the numbers
reach it. -/
theorem freshName?_eq_some_iff {found : List Char} :
    tree.freshName? pattern = some found ↔
    ∃ i < reach, IsFirst (tree.exists? · = true) pattern i ∧
      found = candidate pattern i := by
  rw [freshName?, fresh?_eq_some_iff]
  refine exists_congr fun i => and_congr_right fun hi => ?_
  rw [isFirst_usedCandidates_iff hi]

end

end FileTree

namespace FreshName

open TextMusic.Path

/-- Among listed paths, of which those that are listed twice are one path, the first free
candidate comes after at most as many others as there are paths. -/
theorem exists_isFirst_mem {used : List (List Char)} (h : used.dedup.length < reach)
    (pattern : List Char) : ∃ i ≤ used.dedup.length, IsFirst (· ∈ used) pattern i := by
  obtain ⟨k, hk, hfree⟩ :
      ∃ k < used.dedup.length + 1, candidate pattern k ∉ used := by
    by_contra! hall
    have hsize : used.dedup.length + 1 ≤ Int32.size :=
      (Nat.succ_le_of_lt h).trans (by decide)
    have hlength := le_length_of_mem hsize fun i hi => List.mem_dedup.mpr (hall i hi)
    exact Nat.not_succ_le_self _ hlength
  obtain ⟨i, hi, hfirst⟩ := exists_isFirst (· ∈ used) hfree
  exact ⟨i, hi.trans (Nat.lt_succ_iff.mp hk), hfirst⟩

/-- In a tree the working directory is in use besides the entries. -/
theorem exists_isFirst_exists? {tree : FileTree} (h : tree.entries.length + 1 < reach)
    (pattern : List Char) :
    ∃ i ≤ tree.entries.length + 1, IsFirst (tree.exists? · = true) pattern i := by
  obtain ⟨k, hk, hfree⟩ :
      ∃ k < tree.entries.length + 2, tree.exists? (candidate pattern k) ≠ true := by
    by_contra! hall
    have hsize : tree.entries.length + 2 ≤ Int32.size :=
      (Nat.succ_le_of_lt h).trans (by decide)
    exact Nat.not_succ_le_self _ (FileTree.le_length_of_exists? hsize hall)
  obtain ⟨i, hi, hfirst⟩ := exists_isFirst (tree.exists? · = true) hfree
  exact ⟨i, hi.trans (Nat.lt_succ_iff.mp hk), hfirst⟩

/-- Among fewer paths in use than there are numbers the search for a fresh name ends,
after at most one check more than there are paths, whatever would come of counting on from
the highest number.  It ends at the first candidate that is not in use: among listed paths
as well as in a file tree, where the working directory is in use besides the entries.  The
first candidate is the pattern, and the others are `stem-i.ext` in the directory of the
pattern, or in the pattern itself where that has no name of a file. -/
theorem search_ends_at_fresh (pattern : List Char) :
    (∀ overflow (used : List (List Char)), used.dedup.length < reach →
      ∃ i ≤ used.dedup.length, ∃ found, fresh? used pattern = some found ∧
        EndsAt overflow (· ∈ used) pattern i found) ∧
      (∀ overflow (tree : FileTree), tree.entries.length + 1 < reach →
        ∃ i ≤ tree.entries.length + 1, ∃ found, tree.freshName? pattern = some found ∧
          EndsAt overflow (tree.exists? · = true) pattern i found) ∧
      candidate pattern 0 = pattern ∧
      ∀ j < reach, components (candidate pattern (j + 1)) =
        inDirectory (directory pattern)
          (stemOf pattern ++
            '-' :: (Nat.toDigits 10 (j + 1) ++ '.' :: extensionOf pattern)) := by
  refine ⟨?_, ?_, rfl, ?_⟩
  · intro overflow used h
    obtain ⟨i, hi, hfirst⟩ := exists_isFirst_mem h pattern
    have hreach := hi.trans_lt h
    exact ⟨i, hi, _, fresh?_eq_some_iff.mpr ⟨i, hreach, hfirst, rfl⟩,
      hfirst.endsAt_of_lt hreach⟩
  · intro overflow tree h
    obtain ⟨i, hi, hfirst⟩ := exists_isFirst_exists? h pattern
    have hreach := hi.trans_lt h
    exact ⟨i, hi, _, FileTree.freshName?_eq_some_iff.mpr ⟨i, hreach, hfirst, rfl⟩,
      hfirst.endsAt_of_lt hreach⟩
  · intro j hj
    rw [components_candidate_succ, numbered_eq, toList_toString_ofNat hj]

/-- A pattern with a directory and two dots, of which the first variant is in use as
well. -/
theorem search_ends_at_fresh_dotted :
    let pattern := ['d', '/', 'a', '.', 'b', '.', 'c']
    let used := [pattern, ['d', '/', 'a', '.', 'b', '-', '1', '.', 'c']]
    used.dedup.length < reach ∧
      ∃ i ≤ 2, EndsAt .stops (· ∈ used) pattern i
        ['d', '/', 'a', '.', 'b', '-', '2', '.', 'c'] := by
  intro pattern used
  have hlength : used.dedup.length < reach := by decide +kernel
  obtain ⟨i, hi, found, hfresh, hends⟩ :=
    (search_ends_at_fresh pattern).1 .stops used hlength
  have hfound :
      fresh? used pattern = some ['d', '/', 'a', '.', 'b', '-', '2', '.', 'c'] := by
    decide +kernel
  obtain rfl := Option.some.inj (hfound.symm.trans hfresh)
  exact ⟨hlength, i, hi.trans (by decide +kernel), hends⟩

/-- Where as many paths are in use as there are numbers, the search comes to no name, or
goes on to negative numbers.  And where a pattern has no name of a file, its variants are
not put beside it, but into the directory that it leads to. -/
theorem search_runs_out_of_numbers :
    let pattern := ['a', '.', 'b']
    let used := (List.range reach).map (candidate pattern)
    let more := (List.range (reach + 1)).map (candidate pattern)
    let tree : FileTree := ⟨[([['s', 'u', 'b']], .directory)]⟩
    (fresh? used pattern = none ∧
        ∀ checks found,
          ¬ Search .stops (· ∈ used) pattern pattern 1 checks (some found)) ∧
      (∃ found, EndsAt .wraps (· ∈ more) pattern (reach + 1) found ∧
        fileName? found = some "a--2147483648.b".toList) ∧
      ∃ found, tree.freshName? "sub/..".toList = some found ∧
        fileName? found = some "textune-1.log".toList ∧
        parent "sub/..".toList = "sub".toList ∧
        components found ≠
          inDirectory (components "sub".toList) "textune-1.log".toList := by
  intro pattern used more tree
  have hused : ∀ i < reach, candidate pattern i ∈ used := fun i hi =>
    List.mem_map_of_mem (List.mem_range.mpr hi)
  have hfirst : IsFirst (· ∈ more) pattern (reach + 1) := by
    refine ⟨fun hmem => ?_, fun j hj => List.mem_map_of_mem (List.mem_range.mpr hj)⟩
    obtain ⟨i, hi, heq⟩ := List.mem_map.mp hmem
    have hi := List.mem_range.mp hi
    have hsize : reach + 1 ≤ Int32.size := by decide
    exact absurd (candidate_inj (hi.le.trans hsize) hsize heq) hi.ne
  refine ⟨⟨fresh?_eq_none_iff.mpr hused, ?_⟩, ⟨_, hfirst.endsAt ?_, ?_⟩,
    "sub/../textune-1.log".toList, ?_⟩
  · intro checks found hsearch
    exact Option.some_ne_none found ((search_stops hused).unique hsearch).2
  · exact fun k _ => Overflow.next?_wraps (k + 1)
  · rw [fileName?_candidate_succ]
    decide +kernel
  · decide +kernel

end FreshName

end TextMusic
