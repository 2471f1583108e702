/-
Coherence: what is remembered fits together.  The semitone that is known is that of
the last letter, and a binding was made by the table and with what was known then.
-/
import TextMusic.Proofs.History

namespace TextMusic

/-- The letters are the characters that are bound to playing the note they name. -/
theorem ofChar?_eq_newNote_iff (c : Char) :
    Action.ofChar? c = some .newNote ↔ isNoteLetter c = true := by
  unfold Action.ofChar? isNoteLetter semitone?
  grind

theorem semitone?_eq_none_of_action {c : Char} (h : Action.ofChar? c ≠ some .newNote) :
    semitone? c = none := by
  have hletter := mt (ofChar?_eq_newNote_iff c).mpr h
  simpa [isNoteLetter] using hletter

theorem isSome_lastSemitone? (text : List Char) :
    (lastSemitone? text).isSome = text.any isNoteLetter := by
  rw [lastSemitone?, List.findSomeRev?_eq_findSome?_reverse, Bool.eq_iff_iff,
    List.findSome?_isSome_iff, List.any_eq_true]
  simp only [List.mem_reverse, isNoteLetter]

/-- A binding holds the action of its own character, and the semitone of the letter
just before it if there was one. -/
structure Binding.Coherent (binding : Binding) : Prop where
  action_eq : Action.ofChar? binding.character = some binding.action
  pitch_eq : isNoteLetter binding.previousCharacter = true →
    binding.previousPitch = semitone? binding.previousCharacter

/-- The known semitone is that of the last letter, which is the remembered character
or came before it. -/
structure Memory.Coherent (memory : Memory) : Prop where
  pitch_eq : isNoteLetter memory.previousCharacter = true →
    memory.previousPitch = semitone? memory.previousCharacter
  memo : ∀ binding ∈ memory.memo, binding.Coherent ∧
    memory.previousPitch = (semitone? binding.character).or binding.previousPitch

namespace Memory

theorem coherent_empty : empty.Coherent where
  pitch_eq := by decide
  memo := by simp [empty]

theorem Coherent.bind {memory : Memory} (h : memory.Coherent) {c : Char} {action : Action}
    (hbound : Action.ofChar? c = some action) : (memory.bind action c).Coherent where
  action_eq := hbound
  pitch_eq := h.pitch_eq

theorem Coherent.observe {memory : Memory} (h : memory.Coherent) (c : Char) :
    (memory.observe c).Coherent where
  pitch_eq := by
    intro hletter
    obtain ⟨semitone, hsemitone⟩ := Option.isSome_iff_exists.mp hletter
    change (semitone? c).or memory.previousPitch = semitone? c
    change semitone? c = some semitone at hsemitone
    rw [hsemitone, Option.some_or]
  memo := by
    intro binding hbinding
    cases haction : Action.ofChar? c with
    | some action =>
        obtain rfl : memory.bind action c = binding := by
          simpa [Memory.observe, haction] using hbinding
        exact ⟨h.bind haction, rfl⟩
    | none =>
        have hmemo : binding ∈ memory.memo := by
          simpa [Memory.observe, haction] using hbinding
        have hsemitone : semitone? c = none := by
          apply semitone?_eq_none_of_action
          rw [haction]
          exact (Option.some_ne_none _).symm
        obtain ⟨hcoherent, hpitch⟩ := h.memo binding hmemo
        refine ⟨hcoherent, ?_⟩
        rw [← hpitch, Memory.observe, hsemitone, Option.none_or]

theorem coherent_observeAll (text : List Char) : (empty.observeAll text).Coherent := by
  induction text using List.reverseRecOn with
  | nil => exact coherent_empty
  | append_singleton text c ih =>
      rw [observeAll_append]
      exact ih.observe c

/-- What is carried out is coherent, and no letter came between its character and
the present one unless it was a letter itself. -/
theorem Coherent.react {memory : Memory} (h : memory.Coherent) {c : Char}
    {binding : Binding} (hreact : (memory.react c).binding? = some binding) :
    binding.Coherent ∧
      (semitone? binding.character = none →
        binding.previousPitch = memory.previousPitch) := by
  unfold Memory.react at hreact
  split_ifs at hreact with htrigger
  · exact absurd hreact.symm (Option.some_ne_none binding)
  · cases haction : Action.ofChar? c with
    | some action =>
        simp only [haction, Reaction.binding?, Option.some.injEq] at hreact
        subst hreact
        exact ⟨h.bind haction, fun _ => rfl⟩
    | none =>
        cases hmemo : memory.memo with
        | none => simp [haction, hmemo, Reaction.binding?] at hreact
        | some last =>
            simp only [haction, hmemo, Reaction.binding?, Option.some.injEq] at hreact
            subst hreact
            obtain ⟨hcoherent, hpitch⟩ := h.memo last hmemo
            refine ⟨hcoherent, fun hnone => ?_⟩
            rw [hpitch, hnone, Option.none_or]

end Memory

end TextMusic
