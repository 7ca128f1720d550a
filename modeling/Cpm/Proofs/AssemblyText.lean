import Cpm.Instruction.Text

/-!
# Reading assembly text back

The text of a line determines its mnemonic and its arguments. Names and numbers
cannot be mistaken for one another although registers are named by letters that are
digits as well: a number ends in `H` with digits before it, and no name does. Only a
single digit, a bit number or an interrupt mode, reads the same as a name.
-/

namespace Cpm

namespace Hex

def isDigit (c : Char) : Bool := c ∈ (List.range 16).map digit

/-- The value of a digit; other characters count as zero. -/
def value (c : Char) : Nat := if isDigit c then ((List.range 16).map digit).idxOf c else 0

/-- The number that digits stand for, the most significant digit first. -/
def ofDigits (cs : List Char) : Nat := cs.foldl (fun n c => 16 * n + value c) 0

theorem digit_mod (n : Nat) : digit (n % 16) = digit n := by
  simp only [digit, Nat.mod_mod]

theorem isDigit_digit (n : Nat) : isDigit (digit n) = true := by
  rw [← digit_mod]
  exact decide_eq_true (List.mem_map_of_mem (List.mem_range.mpr (Nat.mod_lt n (by decide))))

theorem value_digit (n : Nat) : value (digit n) = n % 16 := by
  have h : ∀ k < 16, value (digit k) = k := by decide
  rw [← digit_mod]
  exact h _ (Nat.mod_lt n (by decide))

theorem ofDigits_two (n : Nat) : ofDigits [digit (n / 16), digit n] = n % 0x100 := by
  simp only [ofDigits, List.foldl_cons, List.foldl_nil, value_digit]
  omega

theorem ofDigits_four (n : Nat) :
    ofDigits [digit (n / 16 / 16 / 16), digit (n / 16 / 16), digit (n / 16), digit n] =
      n % 0x10000 := by
  simp only [ofDigits, List.foldl_cons, List.foldl_nil, value_digit]
  omega

def byte? (cs : List Char) : Option UInt8 :=
  if cs.all isDigit then some (UInt8.ofNat (ofDigits cs)) else none

def word? (cs : List Char) : Option UInt16 :=
  if cs.all isDigit then some (UInt16.ofNat (ofDigits cs)) else none

theorem byte?_digits (b : UInt8) : byte? [digit (b.toNat / 16), digit b.toNat] = some b := by
  have hlt : b.toNat < 0x100 := b.toNat_lt
  rw [byte?, if_pos (by simp [isDigit_digit]), ofDigits_two, Nat.mod_eq_of_lt hlt,
    UInt8.ofNat_toNat]

theorem word?_digits (w : UInt16) :
    word? [digit (w.toNat / 16 / 16 / 16), digit (w.toNat / 16 / 16), digit (w.toNat / 16),
      digit w.toNat] = some w := by
  have hlt : w.toNat < 0x10000 := w.toNat_lt
  rw [word?, if_pos (by simp [isDigit_digit]), ofDigits_four, Nat.mod_eq_of_lt hlt,
    UInt16.ofNat_toNat]

end Hex

namespace Argument

def signed (sign : Char) (d : UInt8) : UInt8 := if sign = '+' then d else 0 - d

def indexNamed (x : Char) : Index := if x = 'X' then .ix else .iy

/-- The number an argument stands for, told from its last characters and its length. -/
def ofNumber? (cs : List Char) : Option Argument :=
  match cs.reverse with
  | ['H', b, a] => (Hex.byte? [a, b]).map .byte
  | ['H', d, c, b, a] => (Hex.word? [a, b, c, d]).map .word
  | [')', 'H', b, a, '('] => (Hex.byte? [a, b]).map .portAt
  | [')', 'H', d, c, b, a, '('] => (Hex.word? [a, b, c, d]).map .wordAt
  | [')', 'H', b, a, sign, x, 'I', '('] =>
    (Hex.byte? [a, b]).map fun d => .offset (indexNamed x) (signed sign d)
  | _ => none

variable (a b c d : Char)

@[simp] theorem ofNumber?_byte : ofNumber? [a, b, 'H'] = (Hex.byte? [a, b]).map .byte := rfl

@[simp] theorem ofNumber?_word :
    ofNumber? [a, b, c, d, 'H'] = (Hex.word? [a, b, c, d]).map .word := rfl

@[simp] theorem ofNumber?_portAt :
    ofNumber? ['(', a, b, 'H', ')'] = (Hex.byte? [a, b]).map .portAt := rfl

@[simp] theorem ofNumber?_wordAt :
    ofNumber? ['(', a, b, c, d, 'H', ')'] = (Hex.word? [a, b, c, d]).map .wordAt := by
  simp [ofNumber?]

@[simp] theorem ofNumber?_offset (x sign : Char) :
    ofNumber? ['(', 'I', x, sign, a, b, 'H', ')'] =
      (Hex.byte? [a, b]).map fun n => .offset (indexNamed x) (signed sign n) := by
  simp [ofNumber?]

@[simp] theorem ofNumber?_single : ofNumber? [a] = none := by
  simp [ofNumber?]

/-- Reads an argument: a number where it is one, or else a name. -/
def ofText (cs : List Char) : Argument := (ofNumber? cs).getD (.name (String.ofList cs))

/-- An argument as its text shows it: a single digit is a name. -/
def spelled : Argument → Argument
  | .digit n => .name (Argument.digit n).text
  | a => a

/-- The argument can be read back from its text, and from a list of arguments. -/
structure Readable (a : Argument) : Prop where
  ofText : ofText a.text.toList = a.spelled
  noComma : ',' ∉ a.text.toList

theorem ne_comma_digit (n : Nat) : ',' ≠ Hex.digit n := by
  intro h
  have := Hex.isDigit_digit n
  rw [← h] at this
  exact absurd this (by decide)

theorem toList_byteText (n : UInt8) :
    (byteText n).toList = [Hex.digit (n.toNat / 16), Hex.digit n.toNat, 'H'] := by
  simp [byteText, Hex.byte, Hex.digits]

theorem toList_wordText (n : UInt16) :
    (wordText n).toList = [Hex.digit (n.toNat / 16 / 16 / 16), Hex.digit (n.toNat / 16 / 16),
      Hex.digit (n.toNat / 16), Hex.digit n.toNat, 'H'] := by
  simp [wordText, Hex.word, Hex.digits]

theorem toList_offsetText (d : UInt8) :
    ∃ sign n, ',' ≠ sign ∧ signed sign n = d ∧
      (offsetText d).toList = sign :: (byteText n).toList := by
  unfold offsetText
  split
  · exact ⟨'+', d, by decide, rfl, by simp⟩
  · exact ⟨'-', 0 - d, by decide, by simp [signed], by simp⟩

/-- An argument is readable where its text is the number that it stands for. -/
theorem readable_of_number {x : Argument} {cs : List Char} (htext : x.text.toList = cs)
    (hnumber : ofNumber? cs = some x.spelled) (hcomma : ',' ∉ cs) : Readable x :=
  ⟨by rw [htext, ofText, hnumber, Option.getD_some], htext ▸ hcomma⟩

@[simp] theorem readable_byte (n : UInt8) : Readable (.byte n) := by
  refine readable_of_number (toList_byteText n) ?_ (by simp [ne_comma_digit])
  rw [ofNumber?_byte, Hex.byte?_digits]
  rfl

@[simp] theorem readable_word (n : UInt16) : Readable (.word n) := by
  refine readable_of_number (toList_wordText n) ?_ (by simp [ne_comma_digit])
  rw [ofNumber?_word, Hex.word?_digits]
  rfl

@[simp] theorem readable_portAt (n : UInt8) : Readable (.portAt n) := by
  have htext : ("(" ++ byteText n ++ ")").toList = '(' :: ((byteText n).toList ++ [')']) := by simp
  rw [toList_byteText] at htext
  refine readable_of_number htext ?_ (by simp [ne_comma_digit])
  show ofNumber? ['(', Hex.digit (n.toNat / 16), Hex.digit n.toNat, 'H', ')'] = _
  rw [ofNumber?_portAt, Hex.byte?_digits]
  rfl

@[simp] theorem readable_wordAt (n : UInt16) : Readable (.wordAt n) := by
  have htext : ("(" ++ wordText n ++ ")").toList = '(' :: ((wordText n).toList ++ [')']) := by simp
  rw [toList_wordText] at htext
  refine readable_of_number htext ?_ (by simp [ne_comma_digit])
  show ofNumber? ['(', Hex.digit (n.toNat / 16 / 16 / 16), Hex.digit (n.toNat / 16 / 16),
    Hex.digit (n.toNat / 16), Hex.digit n.toNat, 'H', ')'] = _
  rw [ofNumber?_wordAt, Hex.word?_digits]
  rfl

@[simp] theorem readable_offset (i : Index) (d : UInt8) : Readable (.offset i d) := by
  obtain ⟨sign, n, hcomma, hd, hoffset⟩ := toList_offsetText d
  rw [toList_byteText] at hoffset
  obtain ⟨x, hi, hx, hxcomma⟩ : ∃ x, i.text.toList = ['I', x] ∧ indexNamed x = i ∧ ',' ≠ x := by
    cases i
    · exact ⟨'X', by decide, rfl, by decide⟩
    · exact ⟨'Y', by decide, rfl, by decide⟩
  have htext : ("(" ++ i.text ++ offsetText d ++ ")").toList =
      ['(', 'I', x, sign, Hex.digit (n.toNat / 16), Hex.digit n.toNat, 'H', ')'] := by
    simp [hi, hoffset]
  refine readable_of_number htext ?_ (by simp [ne_comma_digit, hcomma, hxcomma])
  rw [ofNumber?_offset, Hex.byte?_digits, Option.map_some, hx, hd]
  rfl

/-- A name is readable where its characters form no number and no list. -/
theorem readable_name {s : String} (hnumber : ofNumber? s.toList = none)
    (hcomma : ',' ∉ s.toList) : Readable (.name s) :=
  ⟨by rw [show (name s).text = s from rfl, ofText, hnumber, String.ofList_toList]; rfl, hcomma⟩

@[simp] theorem readable_digit (n : UInt8) : Readable (.digit n) := by
  have htext : (Argument.digit n).text.toList = [Hex.digit n.toNat] := String.toList_ofList
  have hname : Readable (.name (Argument.digit n).text) :=
    readable_name (by rw [htext, ofNumber?_single]) (by simp [htext, ne_comma_digit])
  exact ⟨hname.ofText, hname.noComma⟩

@[simp] theorem readable_index (i : Index) : Readable (.name i.text) := by
  cases i <;> exact readable_name (by decide) (by decide)

@[simp] theorem readable_reg8 (r : Reg8) : Readable (.reg8 r) := by
  cases r <;> exact readable_name (by decide) (by decide)

@[simp] theorem readable_byteReg (r : ByteReg) : Readable (.byteReg r) := by
  rcases r with r | i | i
  · exact readable_reg8 r
  all_goals cases i <;> exact readable_name (by decide) (by decide)

@[simp] theorem readable_pointer (p : Pointer) : Readable (.pointer p) := by
  rcases p with _ | i
  · exact readable_name (by decide) (by decide)
  · exact readable_index i

@[simp] theorem readable_pointed (p : Pointer) : Readable (.pointed p) := by
  rcases p with _ | _ | _ <;> exact readable_name (by decide) (by decide)

@[simp] theorem readable_place (p : Place) : Readable (.place p) := by
  cases p with
  | atHl => exact readable_pointed .hl
  | offset i d => exact readable_offset i d

@[simp] theorem readable_operand (x : Operand) : Readable (.operand x) := by
  cases x with
  | reg r => exact readable_byteReg r
  | mem p => exact readable_place p

@[simp] theorem readable_pair (p : Pair) : Readable (.pair p) := by
  cases p
  case pointer p => exact readable_pointer p
  all_goals exact readable_name (by decide) (by decide)

@[simp] theorem readable_stackPair (p : StackPair) : Readable (.stackPair p) := by
  cases p
  case pointer p => exact readable_pointer p
  all_goals exact readable_name (by decide) (by decide)

@[simp] theorem readable_via (v : Via) : Readable (.via v) := by
  cases v <;> exact readable_name (by decide) (by decide)

@[simp] theorem readable_condition (cond : Condition) : Readable (.condition cond) := by
  cases cond <;> exact readable_name (by decide) (by decide)

@[simp] theorem readable_accumulator : Readable .accumulator := readable_reg8 .a

@[simp] theorem readable_portC : Readable .portC := readable_name (by decide) (by decide)

@[simp] theorem readable_relative (next : UInt16) (d : UInt8) : Readable (.relative next d) :=
  readable_word _

def rareNames : List String := ["SP", "I", "R", "AF", "AF'", "DE", "HL", "(SP)", "0"]

@[simp] theorem readable_rare {s : String} (h : rareNames.contains s = true) :
    Readable (.name s) := by
  have hnames : ∀ s ∈ rareNames, ofNumber? s.toList = none ∧ ',' ∉ s.toList := by decide
  have hs := hnames s (List.contains_iff_mem.mp h)
  exact readable_name hs.1 hs.2

end Argument

namespace AssemblyLine

/-- Reads a line: the mnemonic up to the first blank, then arguments between commas. -/
def ofText (cs : List Char) : AssemblyLine :=
  ⟨String.ofList (cs.takeWhile (· != ' ')),
    match cs.dropWhile (· != ' ') with
    | [] => []
    | _ :: rest => (rest.splitOn ',').map Argument.ofText⟩

def spelled (line : AssemblyLine) : AssemblyLine :=
  { line with arguments := line.arguments.map Argument.spelled }

structure Readable (line : AssemblyLine) : Prop where
  noBlank : ' ' ∉ line.mnemonic.toList
  arguments : ∀ a ∈ line.arguments, a.Readable

def argumentText : List Argument → List Char
  | [] => []
  | args => ' ' :: [','].intercalate (args.map fun a => a.text.toList)

theorem toList_text (line : AssemblyLine) :
    line.text.toList = line.mnemonic.toList ++ argumentText line.arguments := by
  obtain ⟨mnemonic, args⟩ := line
  cases args with
  | nil => simp [text, argumentText]
  | cons a args => simp [text, argumentText, String.toList_intercalate, Function.comp_def]

/-- The text of a line shows the line. -/
theorem ofText_text {line : AssemblyLine} (h : line.Readable) :
    ofText line.text.toList = line.spelled := by
  have hmnemonic : ∀ c ∈ line.mnemonic.toList, (c != ' ') = true := by
    intro c hc
    rw [bne_iff_ne]
    rintro rfl
    exact h.noBlank hc
  rw [ofText, toList_text, List.takeWhile_append_of_pos hmnemonic,
    List.dropWhile_append_of_pos hmnemonic]
  obtain ⟨mnemonic, args⟩ := line
  cases args with
  | nil => simp [argumentText, spelled]
  | cons a args =>
    -- No argument holds a comma, so the line falls apart where it was joined.
    have hsplit : ([','].intercalate ((a :: args).map fun a => a.text.toList)).splitOn ',' =
        (a :: args).map fun a => a.text.toList := by
      apply List.splitOn_intercalate
      · rw [List.forall_mem_map]
        exact fun b hb => (h.arguments b hb).noComma
      · exact List.cons_ne_nil _ _
    have hargs : ((a :: args).map fun a => a.text.toList).map Argument.ofText =
        (a :: args).map Argument.spelled := by
      rw [List.map_map]
      exact List.map_congr_left fun b hb => (h.arguments b hb).ofText
    simp only [argumentText, spelled, hsplit, hargs, List.takeWhile_cons, List.dropWhile_cons,
      bne_self_eq_false, Bool.false_eq_true, if_false, List.append_nil, String.ofList_toList]

theorem readable_data (bytes : List UInt8) : (data bytes).Readable where
  noBlank := by simp [data]
  arguments := by
    simp only [data, List.forall_mem_map]
    exact fun b _ => Argument.readable_byte b

end AssemblyLine

theorem AluOp.readable_line (op : AluOp) {x : Argument} (h : x.Readable) :
    (op.line x).Readable := by
  cases op <;> constructor <;> simp [AluOp.line, h]

theorem Operation.readable_line (next : UInt16) (o : Operation) : (o.line next).Readable := by
  cases o
  case alu op src => exact op.readable_line (Argument.readable_operand src)
  case aluImm op n => exact op.readable_line (Argument.readable_byte n)
  case acc op => cases op <;> constructor <;> simp [Operation.line, AccOp.mnemonic]
  case shift s x => cases s <;> constructor <;> simp [Operation.line, Shift.mnemonic]
  case inC dst => cases dst <;> constructor <;> simp [Operation.line]
  case ldi dir | ldir dir | cpi dir | cpir dir =>
    cases dir <;> constructor <;> simp [Operation.line, Direction.pick]
  all_goals constructor <;> simp [Operation.line, Argument.rareNames]

theorem Output.readable_line (o : Output) : o.line.Readable := by
  cases o
  case outC src => cases src <;> constructor <;> simp [Output.line, Argument.rareNames]
  case outi dir | otir dir =>
    cases dir <;> constructor <;> simp [Output.line, Direction.pick]
  all_goals constructor <;> simp [Output.line]

theorem Instruction.readable_line (next : UInt16) (i : Instruction) : (i.line next).Readable := by
  cases i with
  | operation o => exact o.readable_line next
  | output o => exact o.readable_line
  | halt => constructor <;> simp [Instruction.line]

/-- Equal text means equal lines, but for digits and the names they look like. -/
theorem Decoded.spelled_eq_of_text_eq {d₁ d₂ : Decoded} {pc : UInt16} {w₁ w₂ : Window}
    (h : (d₁.line pc w₁).text = (d₂.line pc w₂).text) :
    (d₁.line pc w₁).spelled = (d₂.line pc w₂).spelled := by
  have readable (d : Decoded) (w : Window) : (d.line pc w).Readable := by
    unfold Decoded.line
    split
    · exact Instruction.readable_line _ _
    · exact AssemblyLine.readable_data _
  rw [← AssemblyLine.ofText_text (readable d₁ w₁), ← AssemblyLine.ofText_text (readable d₂ w₂), h]

end Cpm
