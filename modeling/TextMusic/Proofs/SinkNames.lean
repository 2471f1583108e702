/-
Sink names: which lists of names make a sink, and that the name of a sink is itself such a
list, of which the same sink is made again.
-/
import TextMusic.Proofs.Sinks

namespace TextMusic

namespace Sink

/-! ## Names one by one -/

/-- The names that there is a sink of. -/
def knownNames : List String :=
  ["console", "", "null", "memory"]

/-- The name that a sink of a name goes by: no name at all is the console's. -/
def ownName (name : String) : String :=
  if name = "" then "console" else name

theorem ofName_isOk_iff {name : String} :
    (∃ sink, ofName name = .ok sink) ↔ name ∈ knownNames := by
  by_cases hconsole : name = "console" ∨ name = ""
  · rcases hconsole with rfl | rfl <;> simp [ofName, knownNames]
  · by_cases hnull : name = "null"
    · simp [ofName, knownNames, hnull]
    · by_cases hmemory : name = "memory"
      · simp [ofName, knownNames, hmemory]
      · rw [not_or] at hconsole
        simp [ofName, knownNames, hconsole, hnull, hmemory]

/-- A name and the name that its sink goes by make the same sink. -/
theorem ofName_ownName (name : String) : ofName (ownName name) = ofName name := by
  by_cases hempty : name = ""
  · subst hempty
    rfl
  · rw [ownName, if_neg hempty]

theorem name_of_ofName {name : String} {sink : Sink} (h : ofName name = .ok sink) :
    sink.name = ownName name := by
  have hknown := ofName_isOk_iff.mp ⟨sink, h⟩
  simp only [knownNames, List.mem_cons, List.not_mem_nil, or_false] at hknown
  rcases hknown with rfl | rfl | rfl | rfl <;> cases h <;> rfl

/-- A name that stands in a list as it is: without a comma, and without blanks around
it. -/
def Bare (name : String) : Prop :=
  ',' ∉ name.toList ∧ trimBlanks name.toList = name.toList

theorem bare_ownName {name : String} (h : name ∈ knownNames) : Bare (ownName name) := by
  simp only [knownNames, List.mem_cons, List.not_mem_nil, or_false] at h
  rcases h with rfl | rfl | rfl | rfl <;> exact ⟨by decide, by decide⟩

/-! ## Lists of names -/

theorem splitAtCommas_eq_splitOn (text : List Char) :
    splitAtCommas text = text.splitOn ',' := by
  induction text with
  | nil => rfl
  | cons c rest ih =>
      rw [splitAtCommas, List.splitOn_cons_eq_if_modifyHead, ih]
      by_cases hcomma : c = ','
      · rw [if_pos hcomma, if_pos (beq_iff_eq.mpr hcomma)]
      · rw [if_neg hcomma, if_neg (by rwa [beq_iff_eq])]
        obtain ⟨part, parts, hparts⟩ :=
          List.exists_cons_of_ne_nil (List.splitOn_ne_nil ',' rest)
        rw [hparts]
        rfl

theorem listedNames_ofList (text : List Char) :
    listedNames (String.ofList text) =
      (text.splitOn ',').map fun part => String.ofList (trimBlanks part) := by
  rw [listedNames, String.toList_ofList, splitAtCommas_eq_splitOn]

theorem listedNames_ne_nil (names : String) : listedNames names ≠ [] := by
  rw [listedNames, splitAtCommas_eq_splitOn, ne_eq, List.map_eq_nil_iff]
  exact List.splitOn_ne_nil ',' names.toList

/-- A blank in front of a list is one in front of its first name, where it does not
count. -/
theorem listedNames_blank (text : List Char) :
    listedNames (String.ofList (' ' :: text)) = listedNames (String.ofList text) := by
  rw [listedNames_ofList, listedNames_ofList, List.splitOn_cons_eq_if_modifyHead]
  obtain ⟨part, parts, hparts⟩ :=
    List.exists_cons_of_ne_nil (List.splitOn_ne_nil ',' text)
  rw [hparts]
  rfl

theorem listedNames_bare {name : String} (h : Bare name) : listedNames name = [name] := by
  rw [listedNames, splitAtCommas_eq_splitOn, List.splitOn_eq_singleton h.1,
    List.map_singleton, h.2, String.ofList_toList]

theorem listedNames_append_comma {name : String} (h : Bare name) (text : List Char) :
    listedNames (String.ofList (name.toList ++ ',' :: text)) =
      name :: listedNames (String.ofList text) := by
  rw [listedNames_ofList, List.splitOn_append_cons_self_of_not_mem h.1, List.map_cons,
    ← listedNames_ofList, h.2, String.ofList_toList]

/-- Names that are written one after the other are listed again. -/
theorem listedNames_joinNames {names : List String} (hne : names ≠ [])
    (hbare : ∀ name ∈ names, Bare name) : listedNames (joinNames names) = names := by
  induction names with
  | nil => exact absurd rfl hne
  | cons name rest ih =>
      obtain ⟨hname, hrest⟩ := List.forall_mem_cons.mp hbare
      cases rest with
      | nil =>
          rw [joinNames, String.intercalate_singleton]
          exact listedNames_bare hname
      | cons second later =>
          have hjoin : joinNames (name :: second :: later) =
              String.ofList
                (name.toList ++ ',' :: ' ' :: (joinNames (second :: later)).toList) := by
            apply String.toList_injective
            simp [joinNames, String.toList_intercalate]
          rw [hjoin, listedNames_append_comma hname, listedNames_blank,
            String.ofList_toList, ih (List.cons_ne_nil second later) hrest]

/-! ## Sinks of lists -/

theorem names_eq_map (sinks : List Sink) : names sinks = sinks.map name := by
  induction sinks with
  | nil => rfl
  | cons sink rest ih => rw [names, ih, List.map_cons]

theorem together_name (sinks : List Sink) :
    (together sinks).name = joinNames (sinks.map name) := by
  rcases sinks with _ | ⟨sink, _ | ⟨second, rest⟩⟩
  · rfl
  · exact String.intercalate_singleton.symm
  · exact congrArg joinNames (names_eq_map (sink :: second :: rest))

/-- Sinks of names go by these names. -/
theorem map_name_of_forall₂ {names : List String} {sinks : List Sink}
    (h : List.Forall₂ (fun name sink => ofName name = .ok sink) names sinks) :
    sinks.map name = names.map ownName := by
  induction h with
  | nil => rfl
  | cons hname _ ih => rw [List.map_cons, List.map_cons, name_of_ofName hname, ih]

theorem exists_forall₂_ofName_iff {names : List String} :
    (∃ sinks, List.Forall₂ (fun name sink => ofName name = .ok sink) names sinks) ↔
      ∀ name ∈ names, name ∈ knownNames := by
  induction names with
  | nil => simp
  | cons name rest ih =>
      rw [List.forall_mem_cons, ← ih, ← ofName_isOk_iff]
      constructor
      · rintro ⟨_, _ | ⟨hname, hrest⟩⟩
        exact ⟨⟨_, hname⟩, _, hrest⟩
      · rintro ⟨⟨sink, hname⟩, sinks, hrest⟩
        exact ⟨sink :: sinks, .cons hname hrest⟩

/-- A list makes a sink if there is a sink of every name in it. -/
theorem ofNames_isOk_iff {names : String} :
    (∃ sink, ofNames names = .ok sink) ↔
      ∀ name ∈ listedNames names, name ∈ knownNames := by
  rw [← exists_forall₂_ofName_iff]
  constructor
  · rintro ⟨sink, h⟩
    obtain ⟨sinks, hsinks, _⟩ := ofNames_eq_ok_iff.mp h
    exact ⟨sinks, hsinks⟩
  · rintro ⟨sinks, hsinks⟩
    exact ⟨together sinks, ofNames_eq_ok_iff.mpr ⟨sinks, hsinks, rfl⟩⟩

theorem name_of_ofNames {names : String} {sink : Sink} (h : ofNames names = .ok sink) :
    sink.name = joinNames ((listedNames names).map ownName) := by
  obtain ⟨sinks, hsinks, rfl⟩ := ofNames_eq_ok_iff.mp h
  rw [together_name, map_name_of_forall₂ hsinks]

/-- The name of a sink lists the names that its parts go by. -/
theorem listedNames_name {names : String} {sink : Sink} (h : ofNames names = .ok sink) :
    listedNames sink.name = (listedNames names).map ownName := by
  rw [name_of_ofNames h]
  apply listedNames_joinNames
  · exact List.map_eq_nil_iff.not.mpr (listedNames_ne_nil names)
  · intro name hname
    obtain ⟨listed, hlisted, rfl⟩ := List.mem_map.mp hname
    exact bare_ownName (ofNames_isOk_iff.mp ⟨sink, h⟩ listed hlisted)

/-- The name of a sink makes the same sink again. -/
theorem ofNames_name {names : String} {sink : Sink} (h : ofNames names = .ok sink) :
    ofNames sink.name = .ok sink := by
  obtain ⟨sinks, hsinks, heq⟩ := ofNames_eq_ok_iff.mp h
  refine ofNames_eq_ok_iff.mpr ⟨sinks, ?_, heq⟩
  rw [listedNames_name h, List.forall₂_map_left_iff]
  simpa only [ofName_ownName] using hsinks

/-- What a list of names comes to.  It makes a sink if each of its parts is the name of
one; that sink goes by the names of its parts, prints the line of every message once for
each console among them and keeps all messages in each memory, and its own name makes it
again.  A line ends in its only newline, and lines one after the other tell their
messages. -/
theorem ofNames_characterized (names : String) :
    (∀ message, ∃ front, (line message).toList = front ++ ['\n'] ∧ '\n' ∉ front) ∧
      (Function.Injective fun messages : List Message =>
        messages.flatMap fun message => (line message).toList) ∧
      listedNames names =
        (names.toList.splitOn ',').map (fun part => String.ofList (trimBlanks part)) ∧
      ((∃ sink, ofNames names = .ok sink) ↔
        ∀ name ∈ listedNames names, name ∈ ["console", "", "null", "memory"]) ∧
      ∀ sink, ofNames names = .ok sink →
        sink.name =
            ", ".intercalate ((listedNames names).map fun name =>
              if name = "" then "console" else name) ∧
          (∀ messages,
            (processEach sink messages).2 = messages.map (fun message =>
                repeated
                  ((listedNames names).countP fun name => name = "console" || name = "")
                  (line message)) ∧
              (processEach sink messages).1.memories =
                List.replicate ((listedNames names).count "memory") messages) ∧
          ofNames sink.name = .ok sink := by
  refine ⟨exists_line_eq, lines_injective, ?_, ofNames_isOk_iff, ?_⟩
  · rw [← listedNames_ofList, String.ofList_toList]
  · intro sink h
    refine ⟨name_of_ofNames h, ?_, ofNames_name h⟩
    intro messages
    obtain ⟨hprinted, hkept⟩ := processEach_eq sink messages
    obtain ⟨hconsoles, hmemories⟩ := ofNames_ok h
    constructor
    · rw [hprinted, hconsoles]
      rfl
    · rw [hkept, hmemories, List.map_replicate, List.nil_append]

theorem ofNames_characterized_repeats :
    ofNames " ,memory,\u3000console" =
      .ok (.composite [.console, .memory #[], .console]) ∧
      name (.composite [.console, .memory #[], .console]) = "console, memory, console" ∧
      ofNames "console, memory, console" =
        .ok (.composite [.console, .memory #[], .console]) := by
  have hmade : ofNames " ,memory,\u3000console" =
      .ok (.composite [.console, .memory #[], .console]) := by
    rfl
  have hlisted : listedNames " ,memory,\u3000console" = ["", "memory", "console"] := by
    rfl
  obtain ⟨hname, _, hagain⟩ :=
    (ofNames_characterized " ,memory,\u3000console").2.2.2.2 _ hmade
  rw [hlisted] at hname
  exact ⟨hmade, hname, hagain⟩

end Sink

end TextMusic
