import Cpm.Bios.Trap
import Cpm.Proofs.ConsoleRequests
import Cpm.Proofs.MemoryBlocks

/-!
# Typing a line

The line that is read into a buffer is told by the keys before its end alone, and so is what is
shown for them. On a screen where a backspace moves the cursor back and any other byte is put
over what is under it, the line stands to the left of the cursor after every key, and nothing
but blanks to the right of it.
-/

namespace Cpm

/-! ### A line of the screen -/

/-- A line of the screen, to the left of the cursor and from it on. -/
structure Screen where
  before : List UInt8
  behind : List UInt8
  deriving DecidableEq, Repr

namespace Screen

def blank : Screen := ⟨[], []⟩

/-- A backspace moves the cursor back; any other byte replaces what is under the cursor. -/
def put (s : Screen) (b : UInt8) : Screen :=
  if b = 0x08 then ⟨s.before.dropLast, s.before.getLast?.toList ++ s.behind⟩
  else ⟨s.before ++ [b], s.behind.tail⟩

def putAll (s : Screen) (bytes : List UInt8) : Screen := bytes.foldl put s

/-- The line is what is to be read. -/
structure Spells (s : Screen) (line : List UInt8) : Prop where
  before : s.before = line
  blank : ∀ b ∈ s.behind, b = 0x20

theorem spells_blank : blank.Spells [] :=
  ⟨rfl, fun _ h => absurd h List.not_mem_nil⟩

variable {s : Screen} {line : List UInt8}

theorem Spells.put (h : s.Spells line) {b : UInt8} (hb : b ≠ 0x08) :
    (s.put b).Spells (line ++ [b]) := by
  rw [Screen.put, if_neg hb]
  exact ⟨congrArg (· ++ [b]) h.before, fun c hc => h.blank c (List.mem_of_mem_tail hc)⟩

/-- A backspace, a blank and a backspace erase the last character. -/
theorem Spells.erase (h : s.Spells line) (hne : line ≠ []) :
    (s.putAll [0x08, 0x20, 0x08]).Spells line.dropLast := by
  obtain ⟨first, last, rfl⟩ : ∃ first last, line = first ++ [last] :=
    ⟨line.dropLast, line.getLast hne, (List.dropLast_concat_getLast hne).symm⟩
  obtain ⟨before, behind⟩ := s
  obtain ⟨rfl, hblank⟩ := h
  have hscreen : putAll ⟨first ++ [last], behind⟩ [0x08, 0x20, 0x08] = ⟨first, 0x20 :: behind⟩ := by
    simp [putAll, Screen.put]
  rw [hscreen, List.dropLast_concat]
  exact ⟨rfl, List.forall_mem_cons.mpr ⟨rfl, hblank⟩⟩

end Screen

/-! ### What keys make of a line -/

namespace Line

def ends (ch : UInt8) : Bool := ch = 0x0D || ch = 0x0A

def erases (ch : UInt8) : Bool := ch = 0x08 || ch = 0x7F

/-- A line of at most `max` characters after one more key. -/
def key (max : Nat) (line : List UInt8) (ch : UInt8) : List UInt8 :=
  if erases ch then line.dropLast else if line.length < max then line ++ [ch] else line

def echo (max : Nat) (line : List UInt8) (ch : UInt8) : List UInt8 :=
  if erases ch then if line = [] then [] else [0x08, 0x20, 0x08]
  else if line.length < max then [ch] else []

def echoes (max : Nat) : List UInt8 → List UInt8 → List UInt8
  | _, [] => []
  | line, ch :: keys => echo max line ch ++ echoes max (key max line ch) keys

variable {max : Nat} {line : List UInt8}

theorem echoes_append (keys more : List UInt8) :
    echoes max line (keys ++ more) =
      echoes max line keys ++ echoes max (keys.foldl (key max) line) more := by
  induction keys generalizing line with
  | nil => rfl
  | cons ch keys ih => simp [echoes, ih]

theorem length_key_le (h : line.length ≤ max) (ch : UInt8) : (key max line ch).length ≤ max := by
  unfold key
  split
  · rw [List.length_dropLast]
    omega
  · split
    · rw [List.length_append]
      exact Nat.succ_le_of_lt ‹_›
    · exact h

theorem length_typed_le (h : line.length ≤ max) (keys : List UInt8) :
    (keys.foldl (key max) line).length ≤ max := by
  induction keys generalizing line with
  | nil => exact h
  | cons ch keys ih => exact ih (length_key_le h ch)

/-- The screen follows the line through one key. -/
theorem spells_echo {s : Screen} (h : s.Spells line) (ch : UInt8) :
    (s.putAll (echo max line ch)).Spells (key max line ch) := by
  unfold echo key
  split
  · split
    · next hline =>
      subst hline
      exact h
    · next hne => exact h.erase hne
  · next herases =>
    split
    · refine h.put ?_
      rintro rfl
      exact herases rfl
    · exact h

/-- The screen follows the line through all keys. -/
theorem spells_echoes {s : Screen} (h : s.Spells line) (keys : List UInt8) :
    (s.putAll (echoes max line keys)).Spells (keys.foldl (key max) line) := by
  induction keys generalizing s line with
  | nil => exact h
  | cons ch keys ih =>
    rw [echoes, Screen.putAll, List.foldl_append]
    exact ih (spells_echo h ch)

/-- What is shown for keys passes through the line after each of them. -/
theorem spells_echoes_of_prefix {before keys : List UInt8} (h : before <+: keys) :
    ∃ shown, shown <+: echoes max [] keys ∧
      (Screen.blank.putAll shown).Spells (before.foldl (key max) []) := by
  obtain ⟨more, rfl⟩ := h
  refine ⟨echoes max [] before, ?_, spells_echoes Screen.spells_blank before⟩
  rw [echoes_append]
  exact List.prefix_append _ _

end Line

/-! ### A console with given input -/

namespace Console

variable {κ : Type} [Console κ] {c : κ} {input : List UInt8}

/-- The console will give these bytes and no more. -/
def Gives (c : κ) (input : List UInt8) : Prop := SameInput c (ScriptedConsole.ofInput input)

namespace Gives

theorem remaining (h : Gives c input) : Console.remaining c = input.length :=
  SameInput.remaining h []

/-- A read takes the first of the bytes, if there is one. -/
theorem read (h : Gives c input) :
    (Console.read c).1 = input.head? ∧ Gives (request c .read) input.tail := by
  cases input with
  | nil => exact ⟨SameInput.read h [], SameInput.request h .read⟩
  | cons b rest => exact ⟨SameInput.read h [], SameInput.request h .read⟩

/-- What is shown is no matter. -/
theorem writeAll (h : Gives c input) (bytes : List UInt8) :
    Gives (Console.writeAll c bytes) input := by
  induction bytes generalizing c with
  | nil => exact h
  | cons b bytes ih =>
    exact ih ((SameInput.request h (.write b)).trans (ScriptedConsole.sameInput rfl))

end Gives

end Console

/-! ### Reading keys -/

namespace Bios

variable {κ : Type} [Console κ] {t : Typing κ} {max : Nat}

namespace Typing

/-- A key changes the line, and shows what that takes. -/
theorem key_eq (t : Typing κ) (max : Nat) (ch : UInt8) :
    t.key max ch = ⟨Console.writeAll t.console (Line.echo max t.typed.reverse ch),
      (Line.key max t.typed.reverse ch).reverse⟩ := by
  obtain ⟨console, typed⟩ := t
  have herases : Line.erases ch = true ↔ ch = 0x08 ∨ ch = 0x7F := by
    simp [Line.erases]
  unfold key Line.echo Line.key
  by_cases h : ch = 0x08 ∨ ch = 0x7F
  · rw [if_pos h, if_pos (herases.mpr h), if_pos (herases.mpr h)]
    cases typed with
    | nil => rfl
    | cons last rest => simp [erase]
  · rw [if_neg h, if_neg (mt herases.mp h), if_neg (mt herases.mp h)]
    unfold take
    simp only [List.length_reverse]
    split
    · simp [Console.writeAll]
    · simp [Console.writeAll]

variable {input : List UInt8} {ch : UInt8}

/-- The requests for one key: it is read, and what it shows is shown. -/
def requestsOf (max : Nat) (line : List UInt8) (ch : UInt8) : List Console.Request :=
  .read :: (Line.echo max line ch).map .write

theorem gives_after_requestsOf (h : Console.Gives t.console (ch :: input)) (line : List UInt8) :
    Console.Gives (Console.after t.console (requestsOf max line ch)) input := by
  have hafter : Console.after t.console (requestsOf max line ch) =
      Console.writeAll (Console.request t.console .read) (Line.echo max line ch) :=
    Console.after_write _ _
  rw [hafter]
  exact h.read.2.writeAll _

/-- Input has ended. -/
theorem readKeys_of_nil (h : Console.Gives t.console []) (n : Nat) :
    readKeys max (n + 1) t = (⟨Console.request t.console .read, t.typed⟩, true) := by
  have hread : Console.read t.console = (none, Console.request t.console .read) :=
    Prod.ext h.read.1 rfl
  simp only [readKeys, hread]

/-- The key ends the line. -/
theorem readKeys_of_end (h : Console.Gives t.console (ch :: input)) (hend : Line.ends ch = true)
    (n : Nat) : readKeys max (n + 1) t = (⟨Console.request t.console .read, t.typed⟩, false) := by
  have hread : Console.read t.console = (some ch, Console.request t.console .read) :=
    Prod.ext h.read.1 rfl
  have hch : ch = 0x0D ∨ ch = 0x0A := by simpa [Line.ends] using hend
  simp only [readKeys, hread, if_pos hch]

/-- Any other key changes the line, and the next one is read. -/
theorem readKeys_of_key (h : Console.Gives t.console (ch :: input)) (hend : Line.ends ch = false)
    (n : Nat) :
    let line := t.typed.reverse
    readKeys max (n + 1) t =
      readKeys max n ⟨Console.after t.console (requestsOf max line ch),
        (Line.key max line ch).reverse⟩ := by
  have hread : Console.read t.console = (some ch, Console.request t.console .read) :=
    Prod.ext h.read.1 rfl
  have hch : ¬ (ch = 0x0D ∨ ch = 0x0A) := by simpa [Line.ends] using hend
  have hafter : Console.after t.console (requestsOf max t.typed.reverse ch) =
      Console.writeAll (Console.request t.console .read) (Line.echo max t.typed.reverse ch) :=
    Console.after_write _ _
  simp only [readKeys, hread, if_neg hch, key_eq, hafter]

/-- What reading keys leaves: it took those up to the end of the line or of the input, and
showed what they make of the line. -/
structure ReadTo (max : Nat) (input : List UInt8) (t : Typing κ) (r : Typing κ × Bool) : Prop where
  requests : ∃ requests, r.1.console = Console.after t.console requests ∧
    Console.written requests = Line.echoes max t.typed.reverse (input.takeWhile (!Line.ends ·))
  line : r.1.typed.reverse =
    (input.takeWhile (!Line.ends ·)).foldl (Line.key max) t.typed.reverse
  ended : r.2 = !input.any Line.ends
  rest : Console.Gives r.1.console (input.drop ((input.takeWhile (!Line.ends ·)).length + 1))

theorem readTo_readKeys (h : Console.Gives t.console input) {n : Nat} (hn : input.length < n) :
    ReadTo max input t (readKeys max n t) := by
  obtain ⟨n, rfl⟩ := Nat.exists_eq_add_one_of_ne_zero (Nat.ne_zero_of_lt hn)
  induction input generalizing t n with
  | nil =>
    rw [readKeys_of_nil h]
    exact ⟨⟨[.read], rfl, rfl⟩, rfl, rfl, h.read.2⟩
  | cons ch input ih =>
    cases hend : Line.ends ch with
    | true =>
      rw [readKeys_of_end h hend]
      have hkeys : (ch :: input).takeWhile (!Line.ends ·) = [] := by simp [hend]
      refine ⟨⟨[.read], rfl, ?_⟩, ?_, ?_, ?_⟩
      · rw [hkeys]
        rfl
      · rw [hkeys]
        rfl
      · simp [hend]
      · rw [hkeys]
        exact h.read.2
    | false =>
      have hkeys : (ch :: input).takeWhile (!Line.ends ·) =
          ch :: input.takeWhile (!Line.ends ·) := by simp [hend]
      have hlength : input.length < n := Nat.lt_of_succ_lt_succ hn
      obtain ⟨n, rfl⟩ := Nat.exists_eq_add_one_of_ne_zero (Nat.ne_zero_of_lt hlength)
      let next : Typing κ := ⟨Console.after t.console (requestsOf max t.typed.reverse ch),
        (Line.key max t.typed.reverse ch).reverse⟩
      have hnext : Console.Gives next.console input := gives_after_requestsOf h _
      rw [readKeys_of_key h hend]
      obtain ⟨⟨requests, hconsole, hwritten⟩, hline, hended, hrest⟩ := ih hnext n hlength
      rw [List.reverse_reverse] at hwritten hline
      refine ⟨⟨requestsOf max t.typed.reverse ch ++ requests, ?_, ?_⟩, ?_, ?_, ?_⟩
      · rw [hconsole, Console.after_append]
      · rw [hkeys, Line.echoes, Console.written_append, hwritten]
        exact congrArg (· ++ _) (Console.written_write _)
      · rw [hkeys]
        exact hline
      · simpa [hend] using hended
      · rw [hkeys]
        exact hrest

end Typing

/-- Memory with a line stored in the buffer, behind the byte for its longest length. -/
structure StoresLine (m : Memory) (buffer : UInt16) (line : List UInt8) (m' : Memory) : Prop where
  length : (m'.get8 (buffer + 1)).toNat = line.length
  characters : m'.getList (buffer + 2) line.length = line
  kept : ∀ a, a ≠ buffer + 1 → (∀ i < line.length, a ≠ buffer + 2 + UInt16.ofNat i) →
    m'.get8 a = m.get8 a
  longest : m'.get8 buffer = m.get8 buffer

theorem storesLine (m : Memory) (buffer : UInt16) {line : List UInt8} (h : line.length ≤ 255) :
    StoresLine m buffer line
      ((m.put8 (buffer + 1) (UInt8.ofNat line.length)).putList (buffer + 2) line) := by
  let counted := m.put8 (buffer + 1) (UInt8.ofNat line.length)
  have hkept : ∀ a, a ≠ buffer + 1 → (∀ i < line.length, a ≠ buffer + 2 + UInt16.ofNat i) →
      (counted.putList (buffer + 2) line).get8 a = m.get8 a := by
    intro a hcount hline
    have hout : line.length ≤ (a - (buffer + 2)).toNat := by
      refine Nat.le_of_not_lt fun hin => hline _ hin ?_
      rw [UInt16.ofNat_toNat, UInt16.add_comm, UInt16.sub_add_cancel]
    rw [Memory.get8_putList _ _ _ (by omega), List.getElem?_eq_none hout]
    exact Memory.get8_put8_other _ _ hcount
  refine ⟨?_, Memory.getList_putList _ _ (by omega), hkept, hkept buffer ?_ fun i hi he => ?_⟩
  · have hlast : (buffer + 1 - (buffer + 2)).toNat = 0xFFFF := by
      have hround : buffer + 1 - (buffer + 2) = 0xFFFF := by grind
      rw [hround]
      rfl
    have hcount : (counted.putList (buffer + 2) line).get8 (buffer + 1) =
        UInt8.ofNat line.length := by
      rw [Memory.get8_putList _ _ _ (by omega), List.getElem?_eq_none (by omega)]
      exact Memory.get8_put8_same _ _ _
    rw [hcount, UInt8.toNat_ofNat']
    omega
  · grind
  · have hnext : buffer + 2 + UInt16.ofNat i = buffer + UInt16.ofNat (2 + i) := by
      rw [UInt16.ofNat_add, ← UInt16.add_assoc]
      rfl
    have hplace := Memory.toNat_add_ofNat_sub buffer (i := 2 + i) (by omega)
    rw [← hnext, ← he, UInt16.sub_self] at hplace
    exact absurd hplace (by simp; omega)

variable (b : Bios κ) (c : Core)

/-- A trap from the entry of the BDOS that asks for a line. -/
theorem trap_of_readLine (hpc : c.regs.pc = Layout.bdosEntry + 2) (hc : c.regs.main.c = 10) :
    let reply := trap c b
    reply.host = { b with console := (readLine b.console c).1 } ∧
      match (readLine b.console c).2 with
      | some left => reply.action = .continue ∧ reply.core = returning left 0
      | none => reply.action = .halt ∧ reply.core = c := by
  have hserve : trap c b = b.callBdos c := by
    simp only [trap, if_pos hpc]
  simp only [hserve, callBdos, serveBdos, hc]
  obtain ⟨console, left⟩ := readLine b.console c
  cases left <;> exact ⟨rfl, rfl, rfl⟩

/-- What reading a line comes to, for the keys that were read. -/
theorem readLine_of_readTo {input : List UInt8} (hinput : Console.Gives b.console input) :
    let max := (c.mem.get8 c.regs.main.de).toNat
    ∃ r, Typing.ReadTo max input ⟨b.console, []⟩ r ∧
      readLine b.console c =
        if r.2 && r.1.typed.isEmpty then (r.1.console, none) else
        let line := r.1.typed.reverse
        let counted := c.mem.put8 (c.regs.main.de + 1) (UInt8.ofNat line.length)
        (Console.write r.1.console 0x0D,
          some { c with mem := counted.putList (c.regs.main.de + 2) line }) := by
  intro max
  have hlength : input.length < Console.remaining b.console + 1 := by
    rw [hinput.remaining]
    exact Nat.lt_succ_self _
  exact ⟨_, Typing.readTo_readKeys hinput hlength, rfl⟩

/-- What a call that reads a line does, told by the input up to the end of the line. If there is
no end of a line and nothing is left of what was typed, the call stops with everything as it was;
otherwise the line is stored with its length before it. What is shown spells the line after each
of the keys, and the end of the line is shown only where the call goes on. -/
theorem line_editing (input : List UInt8) (hinput : Console.Gives b.console input)
    (hpc : c.regs.pc = Layout.bdosEntry + 2) (hfunction : c.regs.main.c = 10) :
    let buffer := c.regs.main.de
    let max := (c.mem.get8 buffer).toNat
    let keys := input.takeWhile (!Line.ends ·)
    let line := keys.foldl (Line.key max) []
    let reply := trap c b
    ∃ requests shown, reply.host = { b with console := Console.after b.console requests } ∧
      Console.Gives reply.host.console (input.drop (keys.length + 1)) ∧
      (∀ before, before <+: keys → ∃ sofar, sofar <+: shown ∧
        (Screen.blank.putAll sofar).Spells (before.foldl (Line.key max) [])) ∧
      (Screen.blank.putAll shown).Spells line ∧
      if input.any Line.ends = false ∧ line = [] then
        reply.action = .halt ∧ reply.core = c ∧ Console.written requests = shown
      else
        reply.action = .continue ∧ Console.written requests = shown ++ [0x0D] ∧
          line.length ≤ max ∧ StoresLine c.mem buffer line reply.core.mem ∧
          reply.core.regs = (returning c 0).regs ∧ reply.core.mode = c.mode := by
  intro buffer max keys line reply
  obtain ⟨r, ⟨⟨requests, hconsole, hwritten⟩, hline, hended, hrest⟩, hread⟩ :=
    b.readLine_of_readTo c hinput
  obtain ⟨hhost, hreply⟩ := b.trap_of_readLine c hpc hfunction
  have hspells : (Screen.blank.putAll (Line.echoes max [] keys)).Spells line :=
    Line.spells_echoes Screen.spells_blank keys
  have htyped : r.1.typed.reverse = line := hline
  have hstops : (r.2 && r.1.typed.isEmpty) = true ↔ input.any Line.ends = false ∧ line = [] := by
    rw [hended, ← htyped]
    simp
  by_cases hstop : input.any Line.ends = false ∧ line = []
  · rw [hread, if_pos (hstops.mpr hstop)] at hhost hreply
    have hgives : Console.Gives reply.host.console (input.drop (keys.length + 1)) := by
      rw [show reply.host = _ from hhost]
      exact hrest
    refine ⟨requests, _, ?_, hgives, fun _ => Line.spells_echoes_of_prefix, hspells, ?_⟩
    · rw [← show r.1.console = Console.after b.console requests from hconsole]
      exact hhost
    · rw [if_pos hstop]
      exact ⟨hreply.1, hreply.2, hwritten⟩
  · rw [hread, if_neg (mt hstops.mp hstop), htyped] at hhost hreply
    have hshown : Console.write r.1.console 0x0D =
        Console.after b.console (requests ++ [.write 0x0D]) := by
      rw [hconsole]
      exact (Console.after_concat b.console requests (.write 0x0D)).symm
    have hgives : Console.Gives reply.host.console (input.drop (keys.length + 1)) := by
      rw [show reply.host = _ from hhost]
      exact hrest.writeAll [0x0D]
    have hlength : line.length ≤ max := Line.length_typed_le (Nat.zero_le _) keys
    have hmax : max < 2 ^ 8 := UInt8.toNat_lt _
    refine ⟨requests ++ [.write 0x0D], _, ?_, hgives,
      fun _ => Line.spells_echoes_of_prefix, hspells, ?_⟩
    · rw [← hshown]
      exact hhost
    · rw [if_neg hstop, Console.written_append, hwritten]
      refine ⟨hreply.1, rfl, hlength, ?_, ?_, ?_⟩
      · rw [show reply.core = _ from hreply.2]
        exact storesLine c.mem buffer (by omega)
      · rw [show reply.core = _ from hreply.2]
        rfl
      · rw [show reply.core = _ from hreply.2]
        rfl

/-- A key that does not fit is not taken, and one that does is erased to make room. -/
theorem line_editing_of_full_line :
    let bank : Bank := { Bank.zero with c := 10, d := 0x40 }
    let regs : Registers := { Registers.zero with main := bank, pc := Layout.bdosEntry + 2 }
    let c : Core := ⟨regs, Memory.blank.put8 0x4000 3, .i8080⟩
    let typed := [0x08, 0x61, 0x62, 0x58, 0x59, 0x08, 0x63, 0x0D, 0x7A]
    let reply := trap c (initial (ScriptedConsole.ofInput typed))
    reply.action = .continue ∧ (reply.core.mem.get8 0x4001).toNat = 3 ∧
      reply.core.mem.getList 0x4002 3 = [0x61, 0x62, 0x63] ∧
      Console.Gives reply.host.console [0x7A] ∧
      ∃ shown, reply.host.console.output.toList = shown ++ [0x0D] ∧
        (Screen.blank.putAll shown).Spells [0x61, 0x62, 0x63] := by
  intro bank regs c typed reply
  have hde : c.regs.main.de = 0x4000 := by
    show Word.ofBytes 0x40 0 = 0x4000
    decide
  have hmax : (c.mem.get8 c.regs.main.de).toNat = 3 := by
    rw [hde]
    exact congrArg UInt8.toNat (Memory.get8_put8_same _ _ _)
  have hinput : Console.Gives (initial (ScriptedConsole.ofInput typed)).console typed :=
    Console.SameInput.refl _
  obtain ⟨requests, shown, hhost, hgives, -, hspells, hreply⟩ :=
    line_editing (initial (ScriptedConsole.ofInput typed)) c typed hinput rfl rfl
  rw [hmax] at hspells hreply
  rw [if_neg (by decide), hde] at hreply
  obtain ⟨haction, hwritten, -, hstored, -⟩ := hreply
  refine ⟨haction, hstored.length, hstored.characters, hgives, shown, ?_, hspells⟩
  rw [show reply.host.console = _ from congrArg Bios.console hhost, ScriptedConsole.output_after,
    hwritten]
  rfl

end Bios

end Cpm
