/-
Configurations and their own text.  The text of an accepted configuration is accepted
again, and gives it back, where its tempo and its tempo step are finite; where one of them
is not, `null` stands for it and the text is refused.
-/
import TextMusic.Proofs.Agreement
import TextMusic.Proofs.ReadBack
import TextMusic.Proofs.Record

namespace TextMusic

open Json

/-! ## Values of fields -/

theorem naturalBelow?_ofNat {n bound : Nat} (h : n < bound) :
    (ofNat n).naturalBelow? bound = some n := by
  have hnatural : Number.natural? ⟨false, digitsOf n, [], none⟩ = some n :=
    congrArg some (digitsValue_digitsOf n)
  rw [ofNat, naturalBelow?, hnatural]
  exact if_pos h

theorem Variant.ofJson?_name (variant : Variant) :
    ofJson? (.ofString variant.name) = some variant := by
  cases variant <;> rfl

theorem RestPolicy.ofJson?_name (policy : RestPolicy) :
    ofJson? (.ofString policy.name) = some policy := by
  cases policy <;> rfl

namespace Config

/-- A configuration whose tempo and tempo step are finite. -/
def IsFinite (config : Config) : Prop :=
  config.bpm.isFinite = true ∧ config.tempoStep.isFinite = true

instance (config : Config) : Decidable config.IsFinite :=
  inferInstanceAs (Decidable (_ ∧ _))

/-! ## Objects -/

theorem legible_toJson (config : Config) : config.toJson.Legible := by
  have hfield : ∀ field ∈ fields, (field.toJson config).Legible := by
    simp only [fields, List.forall_mem_cons, List.not_mem_nil,
      false_imp_iff, implies_true, and_true]
    refine ⟨legible_ofNat _, legible_ofNat _, legible_ofNat _, legible_ofNat _,
      legible_ofSingle _, legible_ofSingle _, legible_ofNat _, legible_ofString _,
      legible_ofString _, ?_⟩
    cases config.seed with
    | none => exact .null
    | some seed => exact legible_ofNat _
  rw [toJson, legible_object_iff]
  intro entry hentry
  obtain ⟨field, hmem, rfl⟩ := List.mem_map.mp hentry
  exact ⟨scalars_member _ _, hfield field hmem⟩

theorem putMember?_name {field : Field} (h : field ∈ fields) (config : Config)
    (value : Json) :
    putMember? config field.name value = field.put? config value := by
  have hfind : fields.find? (fun other => other.name == field.name) = some field := by
    revert field
    simp only [fields, List.forall_mem_cons, List.not_mem_nil,
      false_imp_iff, implies_true, and_true]
    exact ⟨rfl, rfl, rfl, rfl, rfl, rfl, rfl, rfl, rfl, rfl⟩
  rw [putMember?, hfind]

theorem putMember?_bpm (config : Config) (value : Json) :
    putMember? config "bpm" value = value.single?.map fun x => { config with bpm := x } :=
  putMember?_name (List.getElem_mem (show 4 < fields.length by decide)) config value

/-- The members of the object of a configuration, by name. -/
theorem namedMembers?_members (config : Config) (fields : List Field) :
    namedMembers? (fields.map fun field => Json.member field.name (field.toJson config)) =
      some (fields.map fun field => (field.name, field.toJson config)) := by
  induction fields with
  | nil => rfl
  | cons field rest ih =>
      rw [namedMembers?] at ih ⊢
      rw [List.map_cons, List.mapM_cons, ih]
      dsimp only [member]
      rw [characters?_map_scalar, Option.map_some, String.ofList_toList]
      rfl

theorem fieldNames_members (config : Config) :
    fieldNames (fields.map fun field => (field.name, field.toJson config)) =
      fields.map Field.name := by
  rw [fieldNames, List.map_map]
  rfl

/-- Put what a configuration has in each field into the same field. -/
def copyAll? (config start : Config) (fields : List Field) : Option Config :=
  fields.foldlM (fun copied field => field.put? copied (field.toJson config)) start

theorem putMembers_eq (config start : Config) {part : List Field} (h : part ⊆ fields) :
    (part.map fun field => (field.name, field.toJson config)).foldlM
      (fun copied (name, value) => putMember? copied name value) start =
        copyAll? config start part := by
  induction part generalizing start with
  | nil => rfl
  | cons field rest ih =>
      obtain ⟨hfield, hrest⟩ := List.cons_subset.mp h
      rw [copyAll?, List.map_cons, List.foldlM_cons, List.foldlM_cons]
      dsimp only
      rw [putMember?_name hfield]
      congr 1
      funext copied
      exact ih copied hrest

/-- An object whose names are texts, none of them that of a field twice. -/
theorem ofJson?_object {members : List (List Symbol × Json)}
    {named : List (String × Json)} (hnamed : namedMembers? members = some named)
    (hdistinct : (fieldNames named).Nodup) :
    ofJson? (.object members) =
      named.foldlM (fun config (name, value) => putMember? config name value) {} := by
  rw [ofJson?, ofMembers?, hnamed, Option.bind_eq_bind, Option.bind_some,
    if_pos hdistinct]

theorem ofJson?_toJson_eq (config : Config) :
    ofJson? config.toJson = copyAll? config {} fields := by
  have hdistinct :
      (fieldNames (fields.map fun field => (field.name, field.toJson config))).Nodup := by
    rw [fieldNames_members]
    decide
  rw [toJson, ofJson?_object (namedMembers?_members config fields) hdistinct]
  exact putMembers_eq config {} (List.Subset.refl fields)

/-! ## Copies -/

theorem put?_natural (name : String) {bound : Nat} (get : Config → Nat)
    (set : Config → Nat → Config) (config copied : Config) (h : get config < bound) :
    (Field.natural name bound get set).put? copied
      ((Field.natural name bound get set).toJson config) =
      some (set copied (get config)) := by
  change ((Json.ofNat (get config)).naturalBelow? bound).map (set copied) = _
  rw [naturalBelow?_ofNat h, Option.map_some]

theorem copyAll?_cons {config start next : Config} {field : Field} (rest : List Field)
    (h : field.put? start (field.toJson config) = some next) :
    copyAll? config start (field :: rest) = copyAll? config next rest := by
  rw [copyAll?, List.foldlM_cons, h]
  rfl

/-- The seed, which is the last of the fields, is `null` where there is none. -/
theorem copyAll?_seed (config start : Config) :
    copyAll? config start (fields.drop 9) = some { start with seed := config.seed } := by
  cases hseed : config.seed with
  | none =>
      have hjson : ∀ field ∈ fields.drop 9, field.toJson config = .null := by
        simp [fields, hseed]
      refine copyAll?_cons [] ?_
      rw [hjson _ List.mem_cons_self]
  | some seed =>
      have hjson : ∀ field ∈ fields.drop 9, field.toJson config = .ofNat seed.toNat := by
        simp [fields, hseed]
      have hput : (fun n => { start with seed := some (UInt64.ofNat n) }) <$>
          (Json.ofNat seed.toNat).naturalBelow? UInt64.size =
            some { start with seed := some seed } := by
        rw [naturalBelow?_ofNat seed.toNat_lt, Option.map_eq_map, Option.map_some,
          UInt64.ofNat_toNat]
      refine copyAll?_cons [] ?_
      rw [hjson _ List.mem_cons_self]
      exact hput

theorem copyAll?_of_finite {config : Config} (hfinite : config.IsFinite)
    (htick : config.startTick < UInt64.size) (start : Config) :
    copyAll? config start fields = some config := by
  have hbpm : (Json.ofSingle config.bpm).single? = some config.bpm := by
    rw [single?_ofSingle, if_pos hfinite.1]
  have hstep : (Json.ofSingle config.tempoStep).single? = some config.tempoStep := by
    rw [single?_ofSingle, if_pos hfinite.2]
  rw [fields]
  rw [copyAll?_cons _ (put?_natural _ _ _ _ _ config.volume.toNat_lt),
    copyAll?_cons _ (put?_natural _ _ _ _ _ config.instrument.toNat_lt),
    copyAll?_cons _ (put?_natural _ _ _ _ _ config.channel.toNat_lt),
    copyAll?_cons _ (put?_natural _ _ _ _ _ htick),
    copyAll?_cons _ (congrArg (Option.map _) hbpm),
    copyAll?_cons _ (congrArg (Option.map _) hstep),
    copyAll?_cons _ (put?_natural _ _ _ _ _ config.resolution.toNat_lt),
    copyAll?_cons _ (congrArg (Option.map _) config.variant.ofJson?_name),
    copyAll?_cons _ (congrArg (Option.map _) config.restPolicy.ofJson?_name)]
  refine (copyAll?_seed config _).trans ?_
  simp only [UInt8.ofNat_toNat, UInt16.ofNat_toNat]

/-- A field whose value is refused wherever it is put stops the copies. -/
theorem copyAll?_eq_none {config : Config} {field : Field}
    (hrefused : ∀ copied, field.put? copied (field.toJson config) = none)
    {part : List Field} (h : field ∈ part) (start : Config) :
    copyAll? config start part = none := by
  induction part generalizing start with
  | nil => exact absurd h List.not_mem_nil
  | cons first rest ih =>
      rcases List.mem_cons.mp h with rfl | hrest
      · rw [copyAll?, List.foldlM_cons, hrefused]
        rfl
      · cases hput : first.put? start (first.toJson config) with
        | none =>
            rw [copyAll?, List.foldlM_cons, hput]
            rfl
        | some next =>
            rw [copyAll?_cons rest hput]
            exact ih hrest next

/-- Nothing is read from `null` where a single is due. -/
theorem copyAll?_of_single {config : Config} {field : Field} (hfield : field ∈ fields)
    {set : Config → Float32 → Config} {x : Float32}
    (hput : ∀ copied, field.put? copied (field.toJson config) =
      (Json.ofSingle x).single?.map (set copied))
    (hx : ¬ x.isFinite = true) (start : Config) :
    copyAll? config start fields = none := by
  refine copyAll?_eq_none (fun copied => ?_) hfield start
  rw [hput, single?_ofSingle, if_neg hx, Option.map_none]

theorem copyAll?_of_not_finite {config : Config} (h : ¬ config.IsFinite)
    (start : Config) :
    copyAll? config start fields = none := by
  have hbpm : fields[4] ∈ fields := List.getElem_mem _
  have hstep : fields[5] ∈ fields := List.getElem_mem _
  by_cases hfinite : config.bpm.isFinite = true
  · exact copyAll?_of_single hstep (fun _ => rfl) (fun hx => h ⟨hfinite, hx⟩) start
  · exact copyAll?_of_single hbpm (fun _ => rfl) hfinite start

/-- The object of a configuration gives it back, where its numbers are finite. -/
theorem ofJson?_toJson {config : Config} (h : config.startTick < UInt64.size) :
    ofJson? config.toJson = if config.IsFinite then some config else none := by
  rw [ofJson?_toJson_eq]
  split_ifs with hfinite
  · exact copyAll?_of_finite hfinite h {}
  · exact copyAll?_of_not_finite hfinite {}

/-! ## Accepted configurations -/

/-- What every field keeps as it is put holds of what is read. -/
theorem foldlM_induction {α β : Type} {motive : α → Prop} {f : α → β → Option α}
    {items : List β}
    (hkeeps : ∀ item ∈ items, ∀ a b, motive a → f a item = some b → motive b)
    {first last : α} (hfirst : motive first) (h : items.foldlM f first = some last) :
    motive last := by
  induction items generalizing first with
  | nil =>
      obtain rfl : first = last := Option.some.inj h
      exact hfirst
  | cons item rest ih =>
      rw [List.foldlM_cons, Option.bind_eq_bind, Option.bind_eq_some_iff] at h
      obtain ⟨next, hnext, hrest⟩ := h
      obtain ⟨hitem, hkeeps⟩ := List.forall_mem_cons.mp hkeeps
      exact ih hkeeps (hitem first next hfirst hnext) hrest

theorem naturalBelow?_lt {value : Json} {bound n : Nat}
    (h : value.naturalBelow? bound = some n) :
    n < bound := by
  cases value with
  | number spelled =>
      rw [naturalBelow?] at h
      cases hnatural : spelled.natural? with
      | none =>
          rw [hnatural] at h
          exact absurd h.symm (Option.some_ne_none n)
      | some m =>
          rw [hnatural] at h
          obtain ⟨hbound, rfl⟩ :=
            Option.ite_none_right_eq_some.mp h |>.imp_right Option.some.inj
          exact hbound
  | null | bool | text | array | object => exact absurd h.symm (Option.some_ne_none n)

/-- The tick at which a performance starts fits into a word. -/
theorem startTick_put? {field : Field} (hfield : field ∈ fields) {value : Json}
    {config next : Config} (h : config.startTick < UInt64.size)
    (hput : field.put? config value = some next) : next.startTick < UInt64.size := by
  revert field
  simp only [fields, List.forall_mem_cons, List.not_mem_nil, false_imp_iff,
    implies_true, and_true, Field.natural, Option.map_eq_some_iff]
  refine ⟨?_, ?_, ?_, ?_, ?_, ?_, ?_, ?_, ?_, ?_⟩
  case refine_4 =>
    rintro ⟨n, hn, rfl⟩
    exact naturalBelow?_lt hn
  case refine_10 =>
    intro hput
    split at hput
    · obtain rfl := Option.some.inj hput
      exact h
    · obtain ⟨n, -, rfl⟩ := Option.map_eq_some_iff.mp hput
      exact h
  -- the other fields leave it alone
  all_goals
    rintro ⟨_, -, rfl⟩
    exact h

theorem startTick_ofItems? {items : List Json} {config : Config}
    (h : ofItems? items = some config) : config.startTick < UInt64.size := by
  rw [ofItems?] at h
  obtain ⟨-, hfold⟩ := Option.ite_none_right_eq_some.mp h
  refine foldlM_induction (motive := fun c : Config => c.startTick < UInt64.size)
    ?_ (by decide) hfold
  rintro ⟨field, value⟩ hitem config next hconfig hput
  exact startTick_put? (List.of_mem_zip hitem).1 hconfig hput

theorem startTick_ofMembers? {members : List (List Json.Symbol × Json)} {config : Config}
    (h : ofMembers? members = some config) : config.startTick < UInt64.size := by
  rw [ofMembers?, Option.bind_eq_bind, Option.bind_eq_some_iff] at h
  obtain ⟨named, -, hnamed⟩ := h
  obtain ⟨-, hfold⟩ := Option.ite_none_right_eq_some.mp hnamed
  refine foldlM_induction (motive := fun c : Config => c.startTick < UInt64.size)
    ?_ (by decide) hfold
  rintro ⟨name, value⟩ - config next hconfig hput
  change putMember? config name value = some next at hput
  rw [putMember?] at hput
  cases hfind : fields.find? fun field => field.name == name with
  | none =>
      rw [hfind] at hput
      obtain rfl := Option.some.inj hput
      exact hconfig
  | some field =>
      rw [hfind] at hput
      exact startTick_put? (List.mem_of_find?_eq_some hfind) hconfig hput

theorem startTick_ofJson? {value : Json} {config : Config}
    (h : ofJson? value = some config) :
    config.startTick < UInt64.size := by
  cases value with
  | array items => exact startTick_ofItems? h
  | object members => exact startTick_ofMembers? h
  | null | bool | number | text => exact absurd h.symm (Option.some_ne_none config)

theorem ofText_eq_ok_iff {text : String} {config : Config} : ofText text = .ok config ↔
    (∃ value, Json.read? text.toList = some value ∧ ofJson? value = some config) ∧
      config.isValid = true := by
  rw [ofText, ← Option.bind_eq_some_iff]
  cases (Json.read? text.toList).bind ofJson? with
  | none => simp
  | some read =>
      by_cases hvalid : read.isValid = true
      · simp only [hvalid, if_true, Except.ok.injEq, Option.some.injEq]
        constructor
        · rintro rfl
          exact ⟨rfl, hvalid⟩
        · exact And.left
      · simp only [hvalid, if_false, reduceCtorEq, Option.some.injEq, false_iff, not_and]
        rintro rfl
        exact hvalid

/-- The text of a configuration is accepted where its numbers are finite, and gives it
back. -/
theorem ofText_render {config : Config} (hvalid : config.isValid = true)
    (htick : config.startTick < UInt64.size) : ofText config.toJson.render =
      if config.IsFinite then .ok config else .error (.json "not a configuration") := by
  rw [ofText, Json.render, String.toList_ofList, read?_write (legible_toJson config),
    Option.bind_some, ofJson?_toJson htick]
  split_ifs with hfinite
  · exact if_pos hvalid
  · rfl

end Config

/-! ## Documents -/

theorem Message.legible_toJson (message : Message) : message.toJson.Legible := by
  have hnumbers : ∀ bytes : List UInt8, (toJson.numbers bytes).Legible := by
    intro bytes
    refine .array fun item hitem => ?_
    obtain ⟨byte, -, rfl⟩ := List.mem_map.mp hitem
    exact legible_ofNat _
  cases message with
  | short status data1 data2 => simp [toJson, legible_object_iff, hnumbers]
  | metadata kind high middle low =>
      rw [toJson, legible_object_iff, List.forall_mem_singleton]
      refine ⟨scalars_member _ _, .array ?_⟩
      simp [legible_ofNat, hnumbers]

theorem Document.legible_toJson (document : Document) : document.toJson.Legible := by
  have hevents : Legible (.array (document.timeline.events.toList.map Event.toJson)) := by
    refine .array fun item hitem => ?_
    obtain ⟨event, -, rfl⟩ := List.mem_map.mp hitem
    exact event.legible_toJson
  have hmessages : Legible (.array (document.messages.map Message.toJson)) := by
    refine .array fun item hitem => ?_
    obtain ⟨message, -, rfl⟩ := List.mem_map.mp hitem
    exact message.legible_toJson
  simp [toJson, legible_object_iff, legible_ofString, legible_ofNat, hevents, hmessages,
    Config.legible_toJson]

/-- The text of a document is read back as the document's object. -/
theorem Document.read?_render (document : Document) :
    read? document.toJson.render.toList = some document.toJson := by
  rw [Json.render, String.toList_ofList]
  exact read?_write document.legible_toJson

/-- The text of a document is read as an object that has the configuration as a member. -/
theorem exists_document {σ : Type} [Dice σ] (program : String) (config : Config)
    (dice : σ) :
    ∃ document members, simulate program config dice = .ok document ∧
      read? document.toJson.render.toList = some (.object members) ∧
      member "config" config.toJson ∈ members := by
  obtain ⟨messages, hdocument, -⟩ := exists_simulate program config dice
  exact ⟨_, _, hdocument, Document.read?_render _,
    List.mem_cons_of_mem _ List.mem_cons_self⟩

/-- The text of an accepted configuration, which is also a part of the document of every
program, is accepted if its tempo and its tempo step are finite, and gives it back; if one
of them is not, the text has no number for it and is refused. -/
theorem Config.own_text_survives {text : String} {config : Config}
    (h : Config.ofText text = .ok config) :
    Config.ofText config.toJson.render =
        (if config.IsFinite then .ok config else .error (.json "not a configuration")) ∧
      ∀ (σ : Type) [Dice σ] (program : String) (dice : σ),
        ∃ document members, simulate program config dice = .ok document ∧
          read? document.toJson.render.toList = some (.object members) ∧
          member "config" config.toJson ∈ members := by
  obtain ⟨⟨value, -, hvalue⟩, hvalid⟩ := ofText_eq_ok_iff.mp h
  refine ⟨ofText_render hvalid (startTick_ofJson? hvalue), ?_⟩
  intro σ _ program dice
  exact exists_document program config dice

/-- A text with a tempo alone. -/
theorem Config.ofText_bpm {text : String} {number : Number} {bits : UInt32}
    (htext : text.toList = Json.write (.object [member "bpm" (.number number)]))
    (hnumber : number.Legible)
    (hbits : number.toSingle?.map Float32.toBits = some (Float32.ofBits bits).toBits) :
    Config.ofText text = .ok { bpm := .ofBits bits } := by
  have hlegible : Legible (.object [member "bpm" (.number number)]) := by
    simp [legible_object_iff, Legible.number hnumber]
  have hsingle : number.toSingle? = some (.ofBits bits) := by
    obtain ⟨x, hx, hequal⟩ := Option.map_eq_some_iff.mp hbits
    rw [hx, Single.eq_of_toBits hequal]
  have hnamed :
      namedMembers? [member "bpm" (.number number)] = some [("bpm", .number number)] :=
    rfl
  have hvalue : ofJson? (.object [member "bpm" (.number number)]) =
      some { bpm := .ofBits bits } := by
    rw [ofJson?_object hnamed (List.nodup_singleton "bpm"), List.foldlM_cons]
    dsimp only
    rw [putMember?_bpm, single?, hsingle]
    rfl
  refine ofText_eq_ok_iff.mpr ⟨⟨_, ?_, hvalue⟩, rfl⟩
  rw [htext]
  exact read?_write hlegible

/-- The single nearest to a tenth comes back. -/
theorem Config.own_text_survives_tenth :
    Config.ofText "\x7b\"bpm\":0.1\x7d" = .ok { bpm := .ofBits 0x3DCCCCCD } ∧
      Config.ofText (toJson { bpm := .ofBits 0x3DCCCCCD }).render =
        .ok { bpm := .ofBits 0x3DCCCCCD } := by
  have hnumber : Number.Legible ⟨false, [0], [1], none⟩ :=
    ⟨by decide, by decide, by decide⟩
  have haccepted :
      Config.ofText "\x7b\"bpm\":0.1\x7d" = .ok { bpm := .ofBits 0x3DCCCCCD } :=
    ofText_bpm (by decide) hnumber (by decide +kernel)
  have hsurvives := (own_text_survives haccepted).1
  rw [if_pos (by decide +kernel)] at hsurvives
  exact ⟨haccepted, hsurvives⟩

/-- A tempo above the singles is accepted as an infinite one, whose own text is
refused. -/
theorem Config.own_text_refused_infinite :
    Config.ofText "\x7b\"bpm\":1e+39\x7d" = .ok { bpm := .ofBits 0x7F800000 } ∧
      Config.ofText (toJson { bpm := .ofBits 0x7F800000 }).render =
        .error (.json "not a configuration") := by
  have hnumber : Number.Legible ⟨false, [1], [], some (false, [3, 9])⟩ :=
    ⟨by decide, by decide, by simp⟩
  have haccepted :
      Config.ofText "\x7b\"bpm\":1e+39\x7d" = .ok { bpm := .ofBits 0x7F800000 } :=
    ofText_bpm (by decide) hnumber (by decide +kernel)
  have hinfinite : ¬ IsFinite { bpm := .ofBits 0x7F800000 } := by decide +kernel
  exact ⟨haccepted, (ofText_render rfl (by decide)).trans (if_neg hinfinite)⟩

end TextMusic
