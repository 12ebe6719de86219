import NanoSensor.Foundation.Utf8

/-!
# Reading JSON

A reader of JSON texts (RFC 8259) as a machine that takes one byte at a time: `step` is the machine,
`run` feeds it a string, `parse` feeds it a whole text and asks for the value. Its state is what the
grammar would have on its stack: the containers that are still open, each with what it holds so far,
and what may come next (`Mode`). A machine rather than a recursive descent because a *writer* is a
machine too: `run_append` cuts a text anywhere, so that a statement about what a writer has
written so far is a statement about where the reader is.

Strings hold bytes, and bytes from `0x80` on are ordinary string characters to `parse`; whether a
text is UTF-8 is a separate question. `IsText` asks both. A `\u` escape stands for a UTF-16 unit;
`decode` puts units and bytes together, pairing surrogates. Numbers keep their numeral.
-/

open Bytes

/-- A JSON value. -/
inductive Json
  | null
  | bool (b : Bool)
  | num (numeral : Bytes)
  | str (s : Bytes)
  | arr (items : List Json)
  | obj (members : List (Bytes × Json))

namespace Json

/-! ### Strings -/

/-- A character of a string: a byte, plain or escaped, or a UTF-16 unit from a `\u` escape. -/
inductive Piece
  | byte (b : UInt8)
  | unit (u : ℕ)
  deriving DecidableEq, Repr

/-- The encoding of a code point; one that is no character becomes U+FFFD. -/
def encodePoint (n : ℕ) : Bytes :=
  String.utf8EncodeChar (if n.isValidChar then Char.ofNat n else Char.ofNat 0xFFFD)

/-- The two units of a surrogate pair. -/
def isPair (u v : ℕ) : Bool :=
  0xD800 ≤ u && u < 0xDC00 && 0xDC00 ≤ v && v < 0xE000

/-- The bytes a string stands for. -/
def decode : List Piece → Bytes
  | [] => []
  | .byte b :: ps => b :: decode ps
  | .unit u :: .unit v :: ps =>
    if isPair u v then encodePoint (0x10000 + (u - 0xD800) * 0x400 + (v - 0xDC00)) ++ decode ps
    else encodePoint u ++ decode (.unit v :: ps)
  | .unit u :: ps => encodePoint u ++ decode ps

/-- The value of a hexadecimal digit. -/
def hexValue (b : UInt8) : Option ℕ :=
  if isDigit b then some (b.toNat - 0x30)
  else if 0x61 ≤ b && b ≤ 0x66 then some (b.toNat - 0x61 + 10)
  else if 0x41 ≤ b && b ≤ 0x46 then some (b.toNat - 0x41 + 10)
  else none

/-- What a one-letter escape stands for. -/
def escapeValue (b : UInt8) : Option UInt8 :=
  match b with
  | 0x22 => some 0x22
  | 0x5C => some 0x5C
  | 0x2F => some 0x2F
  | 0x62 => some 0x08
  | 0x66 => some 0x0C
  | 0x6E => some 0x0A
  | 0x72 => some 0x0D
  | 0x74 => some 0x09
  | _ => none

/-! ### Numerals -/

/-- The place in `[ "-" ] int [ frac ] [ exp ]`. -/
inductive Phase
  | minus
  | zero
  | int
  | dot
  | frac
  | exp
  | expSign
  | expDigits
  deriving DecidableEq, Repr

/-- The next place, if the byte goes on with the numeral. -/
def Phase.next (p : Phase) (b : UInt8) : Option Phase :=
  let isE := b == 0x65 || b == 0x45
  match p with
  | .minus => if b = 0x30 then some .zero else if isDigit b then some .int else none
  | .zero => if b = 0x2E then some .dot else if isE then some .exp else none
  | .int =>
    if isDigit b then some .int
    else if b = 0x2E then some .dot
    else if isE then some .exp
    else none
  | .dot => if isDigit b then some .frac else none
  | .frac => if isDigit b then some .frac else if isE then some .exp else none
  | .exp =>
    if b = 0x2B || b = 0x2D then some .expSign else if isDigit b then some .expDigits else none
  | .expSign => if isDigit b then some .expDigits else none
  | .expDigits => if isDigit b then some .expDigits else none

/-- The numeral may end here. -/
def Phase.mayEnd : Phase → Bool
  | .zero | .int | .frac | .expDigits => true
  | .minus | .dot | .exp | .expSign => false

/-! ### The machine -/

/-- An open container: an array and its items, an object and its members, or an object whose next
member has its key and no value yet. -/
inductive Frame
  | arr (items : List Json)
  | obj (members : List (Bytes × Json))
  | member (members : List (Bytes × Json)) (key : Bytes)

/-- What may come next. -/
inductive Mode
  /-- A value, or the end of an array that has just been opened. -/
  | value (mayClose : Bool)
  /-- A key, or the end of an object that has just been opened. -/
  | key (mayClose : Bool)
  | colon (key : Bytes)
  /-- A comma, or the end of the container. -/
  | after
  | done (v : Json)
  | str (isKey : Bool) (ps : List Piece)
  | escape (isKey : Bool) (ps : List Piece)
  /-- Inside a `\u` escape, with `left` digits to come. -/
  | hex (isKey : Bool) (ps : List Piece) (left unit : ℕ)
  | num (phase : Phase) (numeral : Bytes)
  /-- Inside `true`, `false` or `null`, with `rest` to come. -/
  | word (rest : Bytes) (v : Json)

/-- The reader: the open containers, innermost first, and what may come next. -/
structure Reader where
  stack : List Frame
  mode : Mode

/-- Space, tab, line feed, carriage return. -/
def isWs (b : UInt8) : Bool :=
  b == 0x20 || b == 0x09 || b == 0x0A || b == 0x0D

/-- A value has been read: it goes into the innermost container. -/
def supply (v : Json) : List Frame → Option Reader
  | [] => some ⟨[], .done v⟩
  | .arr items :: stack => some ⟨.arr (items ++ [v]) :: stack, .after⟩
  | .member members key :: stack => some ⟨.obj (members ++ [(key, v)]) :: stack, .after⟩
  | .obj _ :: _ => none

/-- The first byte of a value. -/
def startValue (stack : List Frame) (mayClose : Bool) (b : UInt8) : Option Reader :=
  match b with
  | 0x22 => some ⟨stack, .str false []⟩
  | 0x7B => some ⟨.obj [] :: stack, .key true⟩
  | 0x5B => some ⟨.arr [] :: stack, .value true⟩
  | 0x5D =>
    match stack with
    | .arr items :: stack => if mayClose then supply (.arr items) stack else none
    | _ => none
  | 0x74 => some ⟨stack, .word (ofString "rue") (.bool true)⟩
  | 0x66 => some ⟨stack, .word (ofString "alse") (.bool false)⟩
  | 0x6E => some ⟨stack, .word (ofString "ull") .null⟩
  | 0x2D => some ⟨stack, .num .minus [b]⟩
  | 0x30 => some ⟨stack, .num .zero [b]⟩
  | _ => if isDigit b then some ⟨stack, .num .int [b]⟩ else none

/-- A byte behind a complete value. -/
def stepAfter (r : Reader) (b : UInt8) : Option Reader :=
  if isWs b then some r
  else
    match r.mode, r.stack, b with
    | .after, .arr items :: stack, 0x2C => some ⟨.arr items :: stack, .value false⟩
    | .after, .obj members :: stack, 0x2C => some ⟨.obj members :: stack, .key false⟩
    | .after, .arr items :: stack, 0x5D => supply (.arr items) stack
    | .after, .obj members :: stack, 0x7D => supply (.obj members) stack
    | _, _, _ => none

/-- The closing quote of a string. -/
def endString (stack : List Frame) (isKey : Bool) (ps : List Piece) : Option Reader :=
  if isKey then some ⟨stack, .colon (decode ps)⟩ else supply (.str (decode ps)) stack

/-- **One byte.** -/
def step (r : Reader) (b : UInt8) : Option Reader :=
  match r.mode with
  | .value mayClose => if isWs b then some r else startValue r.stack mayClose b
  | .key mayClose =>
    if isWs b then some r
    else if b = 0x22 then some ⟨r.stack, .str true []⟩
    else
      match r.stack, b with
      | .obj members :: stack, 0x7D => if mayClose then supply (.obj members) stack else none
      | _, _ => none
  | .colon key =>
    if isWs b then some r
    else
      match r.stack, b with
      | .obj members :: stack, 0x3A => some ⟨.member members key :: stack, .value false⟩
      | _, _ => none
  | .after => stepAfter r b
  | .done _ => stepAfter r b
  | .str isKey ps =>
    if b = 0x22 then endString r.stack isKey ps
    else if b = 0x5C then some ⟨r.stack, .escape isKey ps⟩
    else if b < 0x20 then none
    else some ⟨r.stack, .str isKey (ps ++ [.byte b])⟩
  | .escape isKey ps =>
    if b = 0x75 then some ⟨r.stack, .hex isKey ps 4 0⟩
    else (escapeValue b).map fun c ↦ ⟨r.stack, .str isKey (ps ++ [.byte c])⟩
  | .hex isKey ps left unit =>
    (hexValue b).map fun d ↦
      if left ≤ 1 then ⟨r.stack, .str isKey (ps ++ [.unit (unit * 16 + d)])⟩
      else ⟨r.stack, .hex isKey ps (left - 1) (unit * 16 + d)⟩
  | .num phase numeral =>
    match phase.next b with
    | some p => some ⟨r.stack, .num p (numeral ++ [b])⟩
    | none =>
      -- the byte is the first one behind the numeral
      if phase.mayEnd then (supply (.num numeral) r.stack).bind (stepAfter · b) else none
  | .word rest v =>
    match rest with
    | [] => none
    | c :: rest =>
      if b = c then if rest = [] then supply v r.stack else some ⟨r.stack, .word rest v⟩ else none

/-- Feed a string to the reader. -/
def run (r : Reader) (bs : Bytes) : Option Reader :=
  bs.foldlM step r

/-- The value that has been read, when the text may end here. -/
def finish (r : Reader) : Option Json :=
  match r.stack, r.mode with
  | [], .done v => some v
  | [], .num phase numeral => if phase.mayEnd then some (.num numeral) else none
  | _, _ => none

/-- **Read a JSON text.** -/
def parse (bs : Bytes) : Option Json :=
  (run ⟨[], .value false⟩ bs).bind finish

/-- A JSON text as RFC 8259 has it: of the grammar, and in UTF-8. -/
def IsText (bs : Bytes) : Prop :=
  Utf8.Valid bs ∧ (parse bs).isSome = true

/-! ### Feeding -/

theorem run_nil (r : Reader) : run r [] = some r := rfl

theorem run_cons (r : Reader) (b : UInt8) (bs : Bytes) :
    run r (b :: bs) = (step r b).bind (run · bs) := rfl

/-- **A text can be cut anywhere.** -/
theorem run_append (r : Reader) (a b : Bytes) : run r (a ++ b) = (run r a).bind (run · b) := by
  rw [run, List.foldlM_append]
  rfl

/-- Where white space may stand. -/
def Mode.skipsWs : Mode → Bool
  | .value _ | .key _ | .colon _ | .after | .done _ => true
  | .str _ _ | .escape _ _ | .hex _ _ _ _ | .num _ _ | .word _ _ => false

/-- White space between tokens is skipped. -/
theorem run_ws {r : Reader} (hr : r.mode.skipsWs = true) {ws : Bytes}
    (hws : ∀ b ∈ ws, isWs b = true) : run r ws = some r := by
  induction ws with
  | nil => rfl
  | cons b ws ih =>
    have hstep : step r b = some r := by
      obtain ⟨stack, mode⟩ := r
      have hb := hws b List.mem_cons_self
      cases mode <;> simp only [Mode.skipsWs, Bool.false_eq_true] at hr <;>
        simp [step, stepAfter, hb]
    rw [run_cons, hstep]
    exact ih fun b' hb' ↦ hws b' (List.mem_cons_of_mem b hb')

/-! ### Numerals in progress

A numeral ends where something else begins, so behind the last digit the reader has not supplied the
number yet. For all that can follow there it makes no difference. -/

/-- The bytes that can stand behind a value. -/
def isDelimiter (b : UInt8) : Bool :=
  isWs b || b == 0x2C || b == 0x5D || b == 0x7D

/-- The reader `r` is as good as `r'`, which has just been supplied a value. -/
def Settles (r r' : Reader) : Prop :=
  r = r' ∨ ∃ stack phase numeral, r = ⟨stack, .num phase numeral⟩ ∧ phase.mayEnd = true ∧
    supply (.num numeral) stack = some r'

theorem Phase.next_of_isDelimiter (p : Phase) {b : UInt8} (hb : isDelimiter b = true) :
    p.next b = none := by
  simp only [isDelimiter, isWs, Bool.or_eq_true, beq_iff_eq] at hb
  rcases hb with (((((rfl | rfl) | rfl) | rfl) | rfl) | rfl) | rfl <;> cases p <;> rfl

/-- A reader that has just been supplied a value goes on with `stepAfter`. -/
theorem step_of_supply {v : Json} {stack : List Frame} {r : Reader}
    (h : supply v stack = some r) (b : UInt8) : step r b = stepAfter r b := by
  rcases stack with - | ⟨items | members | ⟨members, key⟩, stack⟩
  · obtain rfl := Option.some.inj h
    rfl
  · obtain rfl := Option.some.inj h
    rfl
  · cases h
  · obtain rfl := Option.some.inj h
    rfl

theorem Settles.run_cons {r r' : Reader} (h : Settles r r') {b : UInt8}
    (hb : isDelimiter b = true) (bs : Bytes) : run r (b :: bs) = run r' (b :: bs) := by
  rcases h with rfl | ⟨stack, phase, numeral, rfl, hend, hsupply⟩
  · rfl
  · have hstep : step ⟨stack, .num phase numeral⟩ b = step r' b := by
      rw [step_of_supply hsupply]
      simp only [step, phase.next_of_isDelimiter hb, hend, if_true, hsupply, Option.bind_some]
    rw [Json.run_cons, Json.run_cons, hstep]

theorem Settles.finish {r r' : Reader} (h : Settles r r') {v : Json}
    (hv : Json.finish r' = some v) : Json.finish r = some v := by
  rcases h with rfl | ⟨stack, phase, numeral, rfl, hend, hsupply⟩
  · exact hv
  · rcases stack with - | ⟨items | members | ⟨members, key⟩, stack⟩
    · obtain rfl := Option.some.inj hsupply
      simpa [Json.finish, hend] using hv
    · obtain rfl := Option.some.inj hsupply
      cases hv
    · cases hsupply
    · obtain rfl := Option.some.inj hsupply
      cases hv

/-! ### Texts of values -/

/-- The text `t` stands for the value `v` wherever a value may stand. -/
def Writes (t : Bytes) (v : Json) : Prop :=
  ∀ (stack : List Frame) (mayClose : Bool) (r' : Reader), supply v stack = some r' →
    ∃ r, run ⟨stack, .value mayClose⟩ t = some r ∧ Settles r r'

theorem run_word (stack : List Frame) (v : Json) {rest : Bytes} (hne : rest ≠ []) :
    run ⟨stack, .word rest v⟩ rest = supply v stack := by
  induction rest with
  | nil => exact absurd rfl hne
  | cons b rest ih =>
    rw [run_cons]
    rcases eq_or_ne rest [] with rfl | hrest
    · simp only [step, if_true]
      rcases supply v stack with - | r <;> rfl
    · simp only [step, if_true, if_neg hrest]
      exact ih hrest

/-- `true`, `false` and `null`. -/
theorem writes_word {b : UInt8} {rest : Bytes} {v : Json} (hb : isWs b = false)
    (hstart : ∀ stack mayClose, startValue stack mayClose b = some ⟨stack, .word rest v⟩)
    (hne : rest ≠ []) : Writes (b :: rest) v := by
  intro stack mayClose r' h
  refine ⟨r', ?_, Or.inl rfl⟩
  rw [run_cons]
  simp only [step, hb, Bool.false_eq_true, if_false, hstart]
  exact (run_word stack v hne).trans h

theorem writes_null : Writes (ofString "null") .null :=
  writes_word (b := 0x6E) (by decide) (fun _ _ ↦ rfl) (by decide)

theorem writes_bool : ∀ b : Bool,
    Writes (if b then ofString "true" else ofString "false") (.bool b)
  | true => writes_word (b := 0x74) (by decide) (fun _ _ ↦ rfl) (by decide)
  | false => writes_word (b := 0x66) (by decide) (fun _ _ ↦ rfl) (by decide)

/-- Digits go on with an integer. -/
theorem run_digits (stack : List Frame) {ds : Bytes} (hds : ∀ d ∈ ds, isDigit d = true) :
    ∀ numeral : Bytes,
      run ⟨stack, .num .int numeral⟩ ds = some ⟨stack, .num .int (numeral ++ ds)⟩ := by
  induction ds with
  | nil => intro numeral; rw [List.append_nil]; rfl
  | cons d ds ih =>
    intro numeral
    have hd := hds d List.mem_cons_self
    have hstep : step ⟨stack, .num .int numeral⟩ d = some ⟨stack, .num .int (numeral ++ [d])⟩ := by
      simp only [step, Phase.next, hd, if_true]
    rw [run_cons, hstep]
    refine (ih (fun d' hd' ↦ hds d' (List.mem_cons_of_mem d hd')) _).trans ?_
    rw [List.append_assoc]
    rfl

/-- A decimal numeral, read from where its first digit may stand. -/
theorem run_decimal (n : ℕ) (r : Reader) (front : Bytes)
    (hzero : step r (digit 0) = some ⟨r.stack, .num .zero (front ++ [digit 0])⟩)
    (hpos : ∀ d < 10, d ≠ 0 → step r (digit d) = some ⟨r.stack, .num .int (front ++ [digit d])⟩) :
    ∃ phase, phase.mayEnd = true ∧
      run r (decimal n) = some ⟨r.stack, .num phase (front ++ decimal n)⟩ := by
  rcases Nat.eq_zero_or_pos n with rfl | hn
  · exact ⟨.zero, rfl, by rw [decimal, if_pos rfl, run_cons, hzero]; rfl⟩
  · obtain ⟨d, ds, hd, hd0, hds, heq⟩ := exists_decimal_eq_cons hn
    refine ⟨.int, rfl, ?_⟩
    rw [heq, run_cons, hpos d hd hd0]
    refine (run_digits r.stack hds _).trans ?_
    rw [List.append_assoc]
    rfl

/-- A natural number. -/
theorem writes_decimal (n : ℕ) : Writes (decimal n) (.num (decimal n)) := by
  intro stack mayClose r' h
  obtain ⟨phase, hend, hrun⟩ := run_decimal n ⟨stack, .value mayClose⟩ [] rfl
    (fun d hd hd0 ↦ by interval_cases d <;> first | rfl | exact absurd rfl hd0)
  exact ⟨_, hrun, Or.inr ⟨stack, phase, _, rfl, hend, h⟩⟩

/-- A negative number. -/
theorem writes_neg_decimal (n : ℕ) : Writes (0x2D :: decimal n) (.num (0x2D :: decimal n)) := by
  intro stack mayClose r' h
  obtain ⟨phase, hend, hrun⟩ := run_decimal n ⟨stack, .num .minus [0x2D]⟩ [0x2D] rfl
    (fun d hd hd0 ↦ by interval_cases d <;> first | rfl | exact absurd rfl hd0)
  exact ⟨_, hrun, Or.inr ⟨stack, phase, _, rfl, hend, h⟩⟩

/-! ### Texts of strings -/

/-- Between the quotes, `body` stands for the characters `ps`. -/
def WritesPieces (body : Bytes) (ps : List Piece) : Prop :=
  ∀ (stack : List Frame) (isKey : Bool) (front : List Piece),
    run ⟨stack, .str isKey front⟩ body = some ⟨stack, .str isKey (front ++ ps)⟩

theorem WritesPieces.append {body body' : Bytes} {ps ps' : List Piece} (h : WritesPieces body ps)
    (h' : WritesPieces body' ps') : WritesPieces (body ++ body') (ps ++ ps') := by
  intro stack isKey front
  rw [run_append, h, Option.bind_some, h', List.append_assoc]

/-- A string. -/
theorem WritesPieces.writes {body : Bytes} {ps : List Piece} (h : WritesPieces body ps) :
    Writes (0x22 :: (body ++ [0x22])) (.str (decode ps)) := by
  intro stack mayClose r' hsupply
  refine ⟨r', ?_, Or.inl rfl⟩
  have hopen : step ⟨stack, .value mayClose⟩ 0x22 = some ⟨stack, .str false []⟩ := rfl
  rw [run_cons, hopen, Option.bind_some, run_append, h, List.nil_append, Option.bind_some, run_cons]
  simp only [step, endString, if_true, Bool.false_eq_true, if_false, hsupply, Option.bind_some]
  rfl

/-- A key and its colon. -/
theorem WritesPieces.run_key {body : Bytes} {ps : List Piece} (h : WritesPieces body ps)
    (members : List (Bytes × Json)) (stack : List Frame) (mayClose : Bool) :
    run ⟨.obj members :: stack, .key mayClose⟩ (0x22 :: (body ++ [0x22, 0x3A])) =
      some ⟨.member members (decode ps) :: stack, .value false⟩ := by
  have hopen : step ⟨.obj members :: stack, .key mayClose⟩ 0x22 =
      some ⟨.obj members :: stack, .str true []⟩ := rfl
  rw [run_cons, hopen, Option.bind_some, run_append, h, List.nil_append]
  rfl

/-- A unit that is no surrogate stands for itself. -/
theorem decode_unit_cons {u : ℕ} (hu : u < 0xD800) (ps : List Piece) :
    decode (.unit u :: ps) = encodePoint u ++ decode ps := by
  rcases ps with - | ⟨b | v, ps⟩
  · rfl
  · rfl
  · have hpair : isPair u v = false := by simp [isPair]; omega
    rw [decode, hpair]
    rfl

/-! ### Arrays of texts -/

/-- Texts with commas between them, up to the bracket. -/
theorem run_separated {α : Type*} {text : α → Bytes} {tree : α → Json} (stack : List Frame)
    (rest : Bytes) {x : α} {xs : List α} (h : ∀ y ∈ x :: xs, Writes (text y) (tree y)) :
    ∀ (items : List Json) (mayClose : Bool),
      run ⟨.arr items :: stack, .value mayClose⟩
          ((ofString ",").intercalate ((x :: xs).map text) ++ 0x5D :: rest) =
        (supply (.arr (items ++ (x :: xs).map tree)) stack).bind (run · rest) := by
  induction xs generalizing x with
  | nil =>
    intro items mayClose
    obtain ⟨r, hrun, hsettles⟩ :=
      h x List.mem_cons_self (.arr items :: stack) mayClose _ rfl
    rw [List.map_singleton, List.intercalate_singleton, run_append, hrun, Option.bind_some,
      hsettles.run_cons rfl, run_cons]
    rfl
  | cons y xs ih =>
    intro items mayClose
    obtain ⟨r, hrun, hsettles⟩ :=
      h x List.mem_cons_self (.arr items :: stack) mayClose _ rfl
    have hnext := ih (fun z hz ↦ h z (List.mem_cons_of_mem x hz)) (items ++ [tree x]) false
    rw [List.append_assoc, List.singleton_append] at hnext
    rw [List.map_cons, List.map_cons, List.intercalate_cons_cons, List.append_assoc,
      List.append_assoc, run_append, hrun, Option.bind_some]
    refine (hsettles.run_cons (b := 0x2C) rfl _).trans ?_
    rw [run_cons]
    exact hnext

/-- **An array** of texts with commas between them. -/
theorem writes_arr {α : Type*} {text : α → Bytes} {tree : α → Json} {xs : List α}
    (h : ∀ x ∈ xs, Writes (text x) (tree x)) :
    Writes (0x5B :: ((ofString ",").intercalate (xs.map text) ++ [0x5D])) (.arr (xs.map tree)) := by
  intro stack mayClose r' hsupply
  refine ⟨r', ?_, Or.inl rfl⟩
  have hopen : step ⟨stack, .value mayClose⟩ 0x5B = some ⟨.arr [] :: stack, .value true⟩ := rfl
  rw [run_cons, hopen, Option.bind_some]
  cases xs with
  | nil =>
    show (supply (.arr []) stack).bind some = some r'
    rw [show supply (.arr []) stack = some r' from hsupply]
    rfl
  | cons x xs =>
    rw [run_separated stack [] h, List.nil_append, hsupply]
    rfl

end Json
