/-
Round trip: the text of a JSON value is read back as that value, so that no two values
have the same text.  The text is first taken apart into the tokens of the value, and these
are then folded into the value again.
-/
import Mathlib.Data.Fintype.Basic
import Mathlib.Data.List.Forall2
import Mathlib.Tactic.FinCases
import TextMusic.Json.Printer
import TextMusic.Json.Reader

namespace TextMusic

namespace Json

/-! ## Values that can be read -/

/-- A number as numbers are spelled: with digits before the point, of which a zero is the
only one if it is the first, and with digits in the power of ten. -/
structure Number.Legible (number : Number) : Prop where
  whole_ne_nil : number.whole ≠ []
  no_leading_zero : number.whole.head? = some Digit.zero → number.whole.length = 1
  power_ne_nil : ∀ negative, number.exponent ≠ some (negative, [])

/-- A text of characters, without halves of surrogate pairs. -/
def Scalars (symbols : List Symbol) : Prop :=
  ∀ symbol ∈ symbols, ∃ c, symbol = .scalar c

/-- A value of such numbers and texts. -/
inductive Legible : Json → Prop where
  | null : Legible .null
  | bool (value : Bool) : Legible (.bool value)
  | number {number : Number} (h : number.Legible) : Legible (.number number)
  | text {symbols : List Symbol} (h : Scalars symbols) : Legible (.text symbols)
  | array {items : List Json} (h : ∀ item ∈ items, Legible item) : Legible (.array items)
  | object {members : List (List Symbol × Json)}
      (hnames : ∀ member ∈ members, Scalars member.1)
      (hvalues : ∀ member ∈ members, Legible member.2) : Legible (.object members)

theorem scalars_map (cs : List Char) : Scalars (cs.map Symbol.scalar) := by
  intro symbol hsymbol
  obtain ⟨c, -, rfl⟩ := List.mem_map.mp hsymbol
  exact ⟨c, rfl⟩

theorem digitsOf_ne_nil (n : Nat) : digitsOf n ≠ [] := by
  rw [digitsOf]
  split <;> simp

/-- Only zero is written with a zero in front. -/
theorem head_digitsOf_ne_zero {n : Nat} (h : 0 < n) :
    (digitsOf n).head? ≠ some Digit.zero := by
  fun_induction digitsOf n with
  | case1 n small =>
      have hdigit : Fin.ofNat 10 n ≠ Digit.zero := by
        intro hzero
        have hvalue := congrArg Fin.val hzero
        simp only [Fin.val_ofNat, Digit.zero, Fin.val_zero] at hvalue
        omega
      simpa using hdigit
  | case2 n large ih =>
      rw [List.head?_append_of_ne_nil _ (digitsOf_ne_nil (n / 10))]
      exact ih (by omega)

theorem legible_ofNat (n : Nat) : Legible (ofNat n) := by
  refine .number ⟨digitsOf_ne_nil n, ?_, ?_⟩
  · intro hzero
    obtain rfl : n = 0 := by
      by_contra hpos
      exact head_digitsOf_ne_zero (Nat.pos_of_ne_zero hpos) hzero
    simp [digitsOf]
  · simp

theorem legible_ofString (s : String) : Legible (ofString s) :=
  .text (scalars_map s.toList)

theorem legible_object_iff {members : List (List Symbol × Json)} :
    Legible (.object members) ↔
      ∀ member ∈ members, Scalars member.1 ∧ Legible member.2 := by
  constructor
  · rintro ⟨⟩
    rename_i hnames hvalues
    exact fun member hmember => ⟨hnames member hmember, hvalues member hmember⟩
  · intro h
    exact .object (fun member hmember => (h member hmember).1) fun member hmember =>
      (h member hmember).2

@[simp] theorem scalars_member (name : String) (value : Json) :
    Scalars (member name value).1 :=
  scalars_map name.toList

@[simp] theorem member_snd (name : String) (value : Json) :
    (member name value).2 = value :=
  rfl

@[simp] theorem ofNat_inj {m n : Nat} : ofNat m = ofNat n ↔ m = n := by
  constructor
  · intro h
    have hdigits : digitsOf m = digitsOf n := by simpa [ofNat] using h
    rw [← digitsValue_digitsOf m, hdigits, digitsValue_digitsOf]
  · exact congrArg ofNat

@[simp] theorem ofString_inj {first second : String} :
    ofString first = ofString second ↔ first = second := by
  simp [ofString, List.map_inj_right, String.toList_inj]

@[simp] theorem member_inj {name other : String} {value second : Json} :
    member name value = member other second ↔ name = other ∧ value = second := by
  simp [member, List.map_inj_right, String.toList_inj]

/-! ## Scanning digits and numbers -/

/-- What follows a number does not go on with it. -/
def Follows (rest : List Char) : Prop :=
  ∀ c ∈ rest.head?, digit? c = none ∧ c ≠ '.' ∧ c ≠ 'e' ∧ c ≠ 'E'

theorem follows_nil : Follows [] := by
  intro c hc
  simp at hc

theorem takeDigits_append {rest : List Char} (h : ∀ c ∈ rest.head?, digit? c = none)
    (digits : List Digit) :
    takeDigits (digits.map digitChar ++ rest) = (digits, rest) := by
  induction digits with
  | nil =>
      cases rest with
      | nil => rfl
      | cons c rest => simp [takeDigits, h c rfl]
  | cons digit digits ih =>
      simp [takeDigits, digit?_digitChar, ih]

/-- The text of what follows the whole digits of a number. -/
def writeFraction (digits : List Digit) : List Char :=
  if digits.isEmpty then [] else '.' :: digits.map digitChar

def writeExponent : Option (Bool × List Digit) → List Char
  | none => []
  | some (negative, digits) =>
      'e' :: (if negative then '-' else '+') :: digits.map digitChar

theorem scanExponent_write {exponent : Option (Bool × List Digit)} {rest : List Char}
    (hpower : ∀ negative, exponent ≠ some (negative, [])) (hrest : Follows rest) :
    scanExponent (writeExponent exponent ++ rest) = some (exponent, rest) := by
  rcases exponent with _ | ⟨negative, digits⟩
  · cases rest with
    | nil => rfl
    | cons c rest =>
        obtain ⟨_, _, he, hE⟩ := hrest c rfl
        simp [writeExponent, scanExponent, he, hE]
  · have hdigits : digits ≠ [] := by
      rintro rfl
      exact hpower negative rfl
    have htake := takeDigits_append (fun c hc => (hrest c hc).1) digits
    cases negative <;> simp [writeExponent, scanExponent, scanSign, htake, hdigits]

theorem head_writeExponent (exponent : Option (Bool × List Digit)) {rest : List Char}
    (hrest : Follows rest) :
    ∀ c ∈ (writeExponent exponent ++ rest).head?, digit? c = none ∧ c ≠ '.' := by
  rcases exponent with _ | ⟨negative, digits⟩
  · exact fun c hc => ⟨(hrest c hc).1, (hrest c hc).2.1⟩
  · rintro c ⟨⟩
    decide

theorem scanFraction_write {digits : List Digit} {rest : List Char}
    (hrest : ∀ c ∈ rest.head?, digit? c = none ∧ c ≠ '.') :
    scanFraction (writeFraction digits ++ rest) = some (digits, rest) := by
  by_cases hdigits : digits = []
  · subst hdigits
    cases rest with
    | nil => rfl
    | cons c rest =>
        have hpoint := (hrest c rfl).2
        simp [writeFraction, scanFraction, hpoint]
  · have htake := takeDigits_append (fun c hc => (hrest c hc).1) digits
    simp [writeFraction, scanFraction, htake, hdigits]

theorem head_writeFraction {digits : List Digit} {rest : List Char}
    (hrest : ∀ c ∈ rest.head?, digit? c = none ∧ c ≠ '.') :
    ∀ c ∈ (writeFraction digits ++ rest).head?, digit? c = none := by
  by_cases hdigits : digits = []
  · subst hdigits
    exact fun c hc => (hrest c hc).1
  · intro c hc
    simp only [writeFraction, hdigits, List.isEmpty_iff, if_false, List.cons_append,
      List.head?_cons, Option.mem_def, Option.some.injEq] at hc
    subst hc
    decide

theorem Number.write_eq (number : Number) :
    number.write = (if number.negative then ['-'] else []) ++
      (number.whole.map digitChar ++
        (writeFraction number.fraction ++ writeExponent number.exponent)) := by
  obtain ⟨negative, whole, fraction, exponent⟩ := number
  rcases exponent with _ | ⟨below, digits⟩ <;>
    simp [Number.write, writeFraction, writeExponent]

theorem scanUnsigned_write {number : Number} (h : number.Legible) {rest : List Char}
    (hrest : Follows rest) :
    scanUnsigned number.negative (number.whole.map digitChar ++
        (writeFraction number.fraction ++ (writeExponent number.exponent ++ rest))) =
      some (number, rest) := by
  have hexponent := head_writeExponent number.exponent hrest
  rw [scanUnsigned, takeDigits_append (head_writeFraction hexponent)]
  have hzero : (number.whole.isEmpty ||
      (number.whole.head? == some Digit.zero && number.whole.length != 1)) = false := by
    have hwhole := h.whole_ne_nil
    have hleading := h.no_leading_zero
    simpa using ⟨hwhole, hleading⟩
  simp [hzero, scanFraction_write hexponent, scanExponent_write h.power_ne_nil hrest]

/-! ## Scanning strings -/

theorem hexDigit?_hexChar : ∀ n < 16, hexDigit? (hexChar n) = some n := by
  decide

/-- A control character is read back from its unit. -/
theorem scanText_writeUnit {c : Char} (hc : c.toNat < 0x20) (rest : List Char) :
    scanText .plain (writeUnit c.toNat ++ rest) =
      (scanText .plain rest).map (inFront (.scalar c)) := by
  have hunit : Symbol.ofUnit c.toNat = .scalar c := by
    rw [Symbol.ofUnit, if_neg (by omega), Char.ofNat_toNat]
  have hhex : ∀ n, hexDigit? (hexChar (n % 16)) = some (n % 16) := fun n =>
    hexDigit?_hexChar _ (Nat.mod_lt n (by decide))
  have hvalue : 16 * (16 * (16 * (c.toNat / 4096 % 16) + c.toNat / 256 % 16) +
      c.toNat / 16 % 16) + c.toNat % 16 = c.toNat := by
    omega
  simp [writeUnit, scanText, hhex, hvalue, hunit]

theorem scanText_writeSymbol (c : Char) (rest : List Char) :
    scanText .plain (writeSymbol (.scalar c) ++ rest) =
      (scanText .plain rest).map (inFront (.scalar c)) := by
  generalize hsymbol : Symbol.scalar c = symbol
  fun_cases writeSymbol symbol
  case case8 d _ _ _ _ _ _ _ hd =>
      cases hsymbol
      exact scanText_writeUnit hd rest
  case case9 d hquote hslash _ _ _ _ _ hd =>
      cases hsymbol
      change scanText .plain (c :: rest) = _
      rw [scanText, if_neg hquote, if_neg hslash, if_neg hd]
  case case10 => cases hsymbol
  -- what is left is escaped by name
  all_goals rfl

theorem scanText_write {symbols : List Symbol} (h : Scalars symbols) (rest : List Char) :
    scanText .plain (symbols.flatMap writeSymbol ++ '"' :: rest) =
      some (symbols, rest) := by
  induction symbols with
  | nil => rfl
  | cons symbol symbols ih =>
      obtain ⟨⟨c, rfl⟩, hrest⟩ := List.forall_mem_cons.mp h
      rw [List.flatMap_cons, List.append_assoc, scanText_writeSymbol, ih hrest]
      rfl

theorem joinHalves_of_scalars {symbols : List Symbol} (h : Scalars symbols) :
    joinHalves symbols = symbols := by
  induction symbols with
  | nil => rfl
  | cons symbol symbols ih =>
      obtain ⟨⟨c, rfl⟩, hrest⟩ := List.forall_mem_cons.mp h
      rw [joinHalves, ih hrest]
      rintro _ _ _ ⟨⟩

/-! ## Taking a text apart -/

/-- A text that is the tokens, whatever follows it. -/
def Spells (text : List Char) (tokens : List Token) : Prop :=
  ∀ rest, Follows rest → tokens? (text ++ rest) = (tokens? rest).map (tokens ++ ·)

theorem tokens?_cons {c : Char} {cs rest : List Char} {token : Token}
    (hspace : isSpace c = false) (h : scanToken (c :: cs) = some (token, rest)) :
    tokens? (c :: cs) = (tokens? rest).map (token :: ·) := by
  rw [tokens?, hspace]
  grind

/-- A text that is one token. -/
theorem spells_token {c : Char} {cs : List Char} {token : Token}
    (hspace : isSpace c = false)
    (h : ∀ rest, Follows rest → scanToken (c :: cs ++ rest) = some (token, rest)) :
    Spells (c :: cs) [token] := by
  intro rest hrest
  exact tokens?_cons hspace (h rest hrest)

theorem spells_nil : Spells [] [] := by
  intro rest _
  simp

theorem spells_text {symbols : List Symbol} (h : Scalars symbols) :
    Spells (writeText symbols) [.text symbols] := by
  apply spells_token rfl
  intro rest _
  simp [scanToken, scanText_write h, joinHalves_of_scalars h]

theorem scanToken_minus (cs : List Char) :
    scanToken ('-' :: cs) =
      (scanUnsigned true cs).map fun scanned => (.number scanned.1, scanned.2) :=
  rfl

theorem scanToken_digit (digit : Digit) (cs : List Char) :
    scanToken (digitChar digit :: cs) =
      (scanUnsigned false (digitChar digit :: cs)).map fun scanned =>
        (.number scanned.1, scanned.2) := by
  fin_cases digit <;> rfl

theorem spells_number {number : Number} (h : number.Legible) :
    Spells number.write [.number number] := by
  obtain ⟨digit, digits, hwhole⟩ := List.exists_cons_of_ne_nil h.whole_ne_nil
  have hscan := fun rest (hrest : Follows rest) => scanUnsigned_write h hrest
  rw [Number.write_eq]
  cases hnegative : number.negative with
  | true =>
      apply spells_token rfl
      intro rest hrest
      rw [List.cons_append, scanToken_minus, ← hnegative]
      simp [hscan rest hrest]
  | false =>
      rw [hwhole]
      apply spells_token ((by decide : ∀ digit, isSpace (digitChar digit) = false) digit)
      intro rest hrest
      rw [List.cons_append, scanToken_digit, ← hnegative]
      have hone := hscan rest hrest
      simp only [hwhole, List.map_cons, List.cons_append] at hone
      simp [hone]

/-- A character that is a token whatever follows it, and that ends a number before it. -/
structure Mark (c : Char) (token : Token) : Prop where
  not_space : isSpace c = false
  scan : ∀ rest, scanToken (c :: rest) = some (token, rest)
  ends : digit? c = none ∧ c ≠ '.' ∧ c ≠ 'e' ∧ c ≠ 'E'

theorem mark_comma : Mark ',' .comma := ⟨rfl, fun _ => rfl, by decide⟩

theorem mark_colon : Mark ':' .colon := ⟨rfl, fun _ => rfl, by decide⟩

theorem mark_openArray : Mark '[' .openArray := ⟨rfl, fun _ => rfl, by decide⟩

theorem mark_closeArray : Mark ']' .closeArray := ⟨rfl, fun _ => rfl, by decide⟩

theorem mark_openObject : Mark '\x7b' .openObject := ⟨rfl, fun _ => rfl, by decide⟩

theorem mark_closeObject : Mark '\x7d' .closeObject := ⟨rfl, fun _ => rfl, by decide⟩

theorem Mark.follows {c : Char} {token : Token} (h : Mark c token) (rest : List Char) :
    Follows (c :: rest) := by
  rintro c ⟨⟩
  exact h.ends

theorem Mark.spells {c : Char} {token : Token} (h : Mark c token) {text : List Char}
    {tokens : List Token} (htext : Spells text tokens) :
    Spells (c :: text) (token :: tokens) := by
  intro rest hrest
  rw [List.cons_append, tokens?_cons h.not_space (h.scan _), htext rest hrest,
    Option.map_map]
  rfl

/-- Two texts one after the other, of which the second starts with a mark. -/
theorem Spells.append {c : Char} {token : Token} {front back : List Char}
    {frontTokens backTokens : List Token} (hfront : Spells front frontTokens)
    (hback : Spells (c :: back) backTokens) (h : Mark c token) :
    Spells (front ++ c :: back) (frontTokens ++ backTokens) := by
  intro rest hrest
  have hrestFront := hfront (c :: back ++ rest) (h.follows (back ++ rest))
  rw [List.append_assoc, hrestFront, hback rest hrest, Option.map_map]
  simp [Function.comp_def]

/-- Put a comma between the tokens of items. -/
def sequence : List (List Token) → List Token
  | [] => []
  | [item] => item
  | item :: rest => item ++ .comma :: sequence rest

theorem spells_separated {texts : List (List Char)} {tokens : List (List Token)}
    (h : List.Forall₂ Spells texts tokens) :
    Spells (separated texts) (sequence tokens) := by
  induction h with
  | nil => exact spells_nil
  | cons hitem hrest ih =>
      cases hrest with
      | nil => exact hitem
      | cons => exact hitem.append (mark_comma.spells ih) mark_comma

mutual

/-- The tokens of a value. -/
def tokens : Json → List Token
  | .null => [.null]
  | .bool value => [.bool value]
  | .number value => [.number value]
  | .text value => [.text value]
  | .array items => .openArray :: (sequence (itemTokens items) ++ [.closeArray])
  | .object members => .openObject :: (sequence (memberTokens members) ++ [.closeObject])

def itemTokens : List Json → List (List Token)
  | [] => []
  | item :: rest => tokens item :: itemTokens rest

def memberTokens : List (List Symbol × Json) → List (List Token)
  | [] => []
  | (name, value) :: rest => (.text name :: .colon :: tokens value) :: memberTokens rest

end

theorem spells_items {items : List Json}
    (h : ∀ item ∈ items, Spells item.write item.tokens) :
    List.Forall₂ Spells (writeItems items) (itemTokens items) := by
  induction items with
  | nil => exact .nil
  | cons item rest ih =>
      obtain ⟨hitem, hrest⟩ := List.forall_mem_cons.mp h
      exact .cons hitem (ih hrest)

theorem spells_member {name : List Symbol} {value : Json} (hname : Scalars name)
    (hvalue : Spells value.write value.tokens) :
    Spells (writeText name ++ ':' :: value.write)
      (.text name :: .colon :: value.tokens) :=
  (spells_text hname).append (mark_colon.spells hvalue) mark_colon

theorem spells_members {members : List (List Symbol × Json)}
    (hnames : ∀ member ∈ members, Scalars member.1)
    (hvalues : ∀ member ∈ members, Spells member.2.write member.2.tokens) :
    List.Forall₂ Spells (writeMembers members) (memberTokens members) := by
  induction members with
  | nil => exact .nil
  | cons member rest ih =>
      obtain ⟨hname, hnames⟩ := List.forall_mem_cons.mp hnames
      obtain ⟨hvalue, hvalues⟩ := List.forall_mem_cons.mp hvalues
      exact .cons (spells_member hname hvalue) (ih hnames hvalues)

/-- A legible value is written as its tokens. -/
theorem spells_write {value : Json} (h : Legible value) :
    Spells value.write value.tokens := by
  induction h with
  | null => exact spells_token rfl fun _ _ => rfl
  | bool value => cases value <;> exact spells_token rfl fun _ _ => rfl
  | number h => exact spells_number h
  | text h => exact spells_text h
  | array _ ih =>
      have hclose := mark_closeArray.spells spells_nil
      exact mark_openArray.spells
        ((spells_separated (spells_items ih)).append hclose mark_closeArray)
  | object hnames _ ih =>
      have hclose := mark_closeObject.spells spells_nil
      exact mark_openObject.spells
        ((spells_separated (spells_members hnames ih)).append hclose mark_closeObject)

/-! ## Putting a value together -/

/-- Take several tokens, if they may stand here. -/
def Progress.takeAll (state : Progress) (tokens : List Token) : Option Progress :=
  tokens.foldlM Progress.take state

/-- The tokens of a value complete it wherever a value is due, and what follows goes on
from there. -/
def Completes (value : Json) : Prop :=
  ∀ stack rest, (Progress.value stack).takeAll (value.tokens ++ rest) =
    (Progress.complete value stack).takeAll rest

/-- Behind an opening bracket an item goes on as one behind no others. -/
theorem takeAll_firstItem (item : Json) (items : List Json) (stack : List Frame)
    (rest : List Token) :
    (Progress.firstItem stack).takeAll (sequence (itemTokens (item :: items)) ++ rest) =
      (Progress.value (.array [] :: stack)).takeAll
        (sequence (itemTokens (item :: items)) ++ rest) := by
  cases items <;> cases item <;> rfl

/-- Behind an opening brace a member goes on as one behind no others. -/
theorem takeAll_firstName (member : List Symbol × Json)
    (members : List (List Symbol × Json)) (stack : List Frame) (rest : List Token) :
    (Progress.firstName stack).takeAll
      (sequence (memberTokens (member :: members)) ++ rest) =
      (Progress.name [] stack).takeAll
        (sequence (memberTokens (member :: members)) ++ rest) := by
  cases members <;> rfl

/-- Items behind those that are done, up to the closing bracket. -/
theorem takeAll_items {item : Json} (hitem : Completes item) {items : List Json}
    (h : ∀ item ∈ items, Completes item) (done : List Json) (stack : List Frame)
    (rest : List Token) :
    (Progress.value (.array done :: stack)).takeAll
        (sequence (itemTokens (item :: items)) ++ .closeArray :: rest) =
      (Progress.complete (.array (done.reverse ++ item :: items)) stack).takeAll
        rest := by
  induction items generalizing item done with
  | nil =>
      rw [← List.reverse_cons]
      exact hitem (.array done :: stack) (.closeArray :: rest)
  | cons next later ih =>
      obtain ⟨hnext, hlater⟩ := List.forall_mem_cons.mp h
      have hgoOn := ih hnext hlater (item :: done)
      rw [List.reverse_cons, List.append_assoc] at hgoOn
      change Progress.takeAll _ ((item.tokens ++
        .comma :: sequence (itemTokens (next :: later))) ++ .closeArray :: rest) = _
      rw [List.append_assoc, hitem]
      exact hgoOn

/-- A member completes its value with its name on the stack. -/
theorem takeAll_member {value : Json} (h : Completes value) (name : List Symbol)
    (done : List (List Symbol × Json)) (stack : List Frame) (rest : List Token) :
    (Progress.name done stack).takeAll (.text name :: .colon :: (value.tokens ++ rest)) =
      (Progress.complete value (.object done name :: stack)).takeAll rest :=
  h (.object done name :: stack) rest

/-- Members behind those that are done, up to the closing brace. -/
theorem takeAll_members {member : List Symbol × Json} (hmember : Completes member.2)
    {members : List (List Symbol × Json)} (h : ∀ member ∈ members, Completes member.2)
    (done : List (List Symbol × Json)) (stack : List Frame) (rest : List Token) :
    (Progress.name done stack).takeAll
        (sequence (memberTokens (member :: members)) ++ .closeObject :: rest) =
      (Progress.complete (.object (done.reverse ++ member :: members)) stack).takeAll
        rest := by
  induction members generalizing member done with
  | nil =>
      rw [← List.reverse_cons]
      exact takeAll_member hmember member.1 done stack (.closeObject :: rest)
  | cons next later ih =>
      obtain ⟨hnext, hlater⟩ := List.forall_mem_cons.mp h
      have hgoOn := ih hnext hlater (member :: done)
      rw [List.reverse_cons, List.append_assoc] at hgoOn
      change Progress.takeAll _ (.text member.1 :: .colon :: ((member.2.tokens ++
        .comma :: sequence (memberTokens (next :: later))) ++ .closeObject :: rest)) = _
      rw [List.append_assoc, takeAll_member hmember]
      exact hgoOn

theorem completes_array {items : List Json} (h : ∀ item ∈ items, Completes item) :
    Completes (.array items) := by
  intro stack rest
  cases items with
  | nil => rfl
  | cons item later =>
      obtain ⟨hitem, hlater⟩ := List.forall_mem_cons.mp h
      change Progress.takeAll (.firstItem stack)
        ((sequence (itemTokens (item :: later)) ++ [.closeArray]) ++ rest) = _
      rw [List.append_assoc, takeAll_firstItem]
      exact takeAll_items hitem hlater [] stack rest

theorem completes_object {members : List (List Symbol × Json)}
    (h : ∀ member ∈ members, Completes member.2) : Completes (.object members) := by
  intro stack rest
  cases members with
  | nil => rfl
  | cons member later =>
      obtain ⟨hmember, hlater⟩ := List.forall_mem_cons.mp h
      change Progress.takeAll (.firstName stack)
        ((sequence (memberTokens (member :: later)) ++ [.closeObject]) ++ rest) = _
      rw [List.append_assoc, takeAll_firstName]
      exact takeAll_members hmember hlater [] stack rest

theorem completes {value : Json} (h : Legible value) : Completes value := by
  induction h with
  | null | bool | number | text => exact fun _ _ => rfl
  | array _ ih => exact completes_array ih
  | object _ _ ih => exact completes_object ih

/-! ## Reading what is written -/

theorem ofTokens?_of_takeAll {tokens : List Token} {value : Json}
    (h : (Progress.value []).takeAll tokens = some (.complete value [])) :
    ofTokens? tokens = some value := by
  rw [Progress.takeAll] at h
  rw [ofTokens?, h]

/-- The text of a value is read as the value. -/
theorem read?_write {value : Json} (h : Legible value) :
    read? value.write = some value := by
  have htokens := spells_write h [] follows_nil
  rw [List.append_nil, tokens?, Option.map_some, List.append_nil] at htokens
  have hvalue := completes h [] []
  rw [List.append_nil] at hvalue
  rw [read?, htokens]
  exact ofTokens?_of_takeAll hvalue

/-- No two values have the same text. -/
theorem write_injective {left right : Json} (hleft : Legible left)
    (hright : Legible right) (h : left.write = right.write) : left = right := by
  have hread := congrArg read? h
  rw [read?_write hleft, read?_write hright] at hread
  exact Option.some.inj hread

end Json

end TextMusic
