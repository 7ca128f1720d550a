import Cpm.Console.Feed
import Cpm.Proofs.ConsoleRequests

/-!
# Input from the host is a queue

The byte that a status call takes ahead, the channel and the mark for the end of input are
three places where input can be. Seen from outside they are one queue: what the thread sends
is put at its back, what is read is taken from its front, and a status call looks at it.
-/

namespace Cpm

namespace HostConsole

/-- The end of input is seen when nothing is left and nothing more can come. -/
def Sound (c : HostConsole) : Prop :=
  c.ended = true → c.channel.queue = [] ∧ c.channel.isOpen = false

variable {c : HostConsole}

theorem Sound.pending_eq (h : c.Sound) : c.pending = c.ahead.toList ++ c.channel.queue := by
  unfold pending
  split
  · next hended => rw [(h hended).1]
  · rfl

theorem status_eq (h : c.Sound) : c.status.1 = !c.pending.isEmpty := by
  rw [h.pending_eq]
  obtain ⟨⟨queue, isOpen⟩, ahead, ended, starved, output⟩ := c
  cases ahead with
  | some b => rfl
  | none =>
    cases ended with
    | true =>
      obtain ⟨hqueue, -⟩ := h rfl
      cases hqueue
      rfl
    | false => cases queue <;> cases isOpen <;> rfl

theorem Sound.status (h : c.Sound) :
    c.status.2.Sound ∧ c.status.2.channel.isOpen = c.channel.isOpen := by
  obtain ⟨⟨queue, isOpen⟩, ahead, ended, starved, output⟩ := c
  cases ahead with
  | some b => exact ⟨h, rfl⟩
  | none =>
    cases ended with
    | true => exact ⟨h, rfl⟩
    | false =>
      cases queue with
      | cons b rest => exact ⟨fun hended => absurd hended Bool.false_ne_true, rfl⟩
      | nil =>
        cases isOpen with
        | true => exact ⟨fun hended => absurd hended Bool.false_ne_true, rfl⟩
        | false => exact ⟨fun _ => ⟨rfl, rfl⟩, rfl⟩

/-- A read takes what is pending from the front. -/
theorem read_eq (h : c.Sound) :
    c.read.1 = c.pending.head? ∧ c.read.2.pending = c.pending.tail ∧
      c.read.2.Sound ∧ c.read.2.channel.isOpen = c.channel.isOpen := by
  obtain ⟨⟨queue, isOpen⟩, ahead, ended, starved, output⟩ := c
  cases ahead with
  | some b => exact ⟨rfl, rfl, h, rfl⟩
  | none =>
    cases ended with
    | true =>
      obtain ⟨hqueue, -⟩ := h rfl
      cases hqueue
      exact ⟨rfl, rfl, h, rfl⟩
    | false =>
      cases queue with
      | cons b rest => exact ⟨rfl, rfl, fun hended => absurd hended Bool.false_ne_true, rfl⟩
      | nil =>
        cases isOpen with
        | true => exact ⟨rfl, rfl, fun hended => absurd hended Bool.false_ne_true, rfl⟩
        | false => exact ⟨rfl, rfl, fun _ => ⟨rfl, rfl⟩, rfl⟩

/-- A read waits while nothing is pending and the channel is open. -/
theorem blocks_eq (h : c.Sound) : c.blocks = (c.pending.isEmpty && c.channel.isOpen) := by
  rw [h.pending_eq]
  obtain ⟨⟨queue, isOpen⟩, ahead, ended, starved, output⟩ := c
  cases ahead with
  | some b => rfl
  | none =>
    cases ended with
    | true =>
      obtain ⟨hqueue, hopen⟩ := h rfl
      cases hqueue
      cases hopen
      rfl
    | false => cases queue <;> cases isOpen <;> rfl

/-- The channel is closed and the console holds what a scripted one holds. -/
structure Matches (c : HostConsole) (d : ScriptedConsole) : Prop where
  sound : c.Sound
  closed : c.channel.isOpen = false
  pending : c.pending = d.input

namespace Matches

variable {d : ScriptedConsole}

theorem status (h : c.Matches d) : (Console.status c).1 = (Console.status d).1 := by
  rw [show (Console.status c).1 = c.status.1 from rfl, status_eq h.sound, h.pending]
  rfl

theorem read (h : c.Matches d) : (Console.read c).1 = (Console.read d).1 := by
  rw [show (Console.read c).1 = c.read.1 from rfl, (read_eq h.sound).1, h.pending]
  simp only [Console.read, ScriptedConsole.read]
  cases d.input <;> rfl

theorem request (h : c.Matches d) (r : Console.Request) :
    (Console.request c r).Matches (Console.request d r) := by
  cases r with
  | status =>
    obtain ⟨hsound, hopen⟩ := h.sound.status
    exact ⟨hsound, hopen.trans h.closed, (pending_status c).trans h.pending⟩
  | read =>
    obtain ⟨-, hpending, hsound, hopen⟩ := read_eq h.sound
    refine ⟨hsound, hopen.trans h.closed, hpending.trans ?_⟩
    rw [h.pending]
    simp only [Console.request, Console.read, ScriptedConsole.read]
    cases hinput : d.input with
    | nil => exact hinput.symm
    | cons b rest => rfl
  | write b => exact ⟨h.sound, h.closed, h.pending⟩

theorem after (h : c.Matches d) (requests : List Console.Request) :
    (Console.after c requests).Matches (Console.after d requests) := by
  induction requests generalizing c d with
  | nil => exact h
  | cons r requests ih => exact ih (h.request r)

/-- Closed consoles answer as scripted ones, and at once. -/
theorem sameInput (h : c.Matches d) : Console.SameInput c d where
  status requests := (h.after requests).status
  read requests := (h.after requests).read
  remaining requests := congrArg List.length (h.after requests).pending

theorem blocks (h : c.Matches d) : c.blocks = false := by
  rw [blocks_eq h.sound, h.closed, Bool.and_false]

end Matches

end HostConsole

/-- Input as a queue: the bytes to be read, those that the thread has yet to send, and
whether it runs. A thread that has ended has sent all of its bytes. -/
structure InputQueue where
  pending : List UInt8
  hand : List UInt8
  running : Bool
  sent : running = false → hand = []

namespace InputQueue

open Feed (Event delivered taken)

def stopped (pending : List UInt8) : InputQueue := ⟨pending, [], false, fun _ => rfl⟩

def feeding (pending hand : List UInt8) : InputQueue :=
  ⟨pending, hand, true, fun h => Bool.noConfusion h⟩

def arrive (q : InputQueue) : Arrival → InputQueue
  | .piece [] => stopped q.pending
  | .piece bytes => feeding q.pending bytes
  | .interrupted => q
  | .failed => stopped q.pending

def next? (q : InputQueue) : Event → Option InputQueue
  | .arrival a => if q.running && q.hand.isEmpty then some (q.arrive a) else none
  | .send =>
    match q.hand with
    | [] => none
    | b :: rest => some (feeding (q.pending ++ [Channel.keyCode b]) rest)
  | .status ready => if (!q.pending.isEmpty) = ready then some q else none
  | .read key =>
    if !(q.pending.isEmpty && q.running) && q.pending.head? = key then
      some { q with pending := q.pending.tail }
    else none

def after? (q : InputQueue) : List Event → Option InputQueue
  | [] => some q
  | e :: events => (q.next? e).bind fun r => r.after? events

structure Shows (f : Feed) (q : InputQueue) : Prop where
  sound : f.console.Sound
  isOpen : f.console.channel.isOpen = q.running
  pending : f.console.pending = q.pending
  hand : f.hand = q.hand
  running : f.running = q.running

theorem shows_initial : Shows .initial (feeding [] []) :=
  ⟨fun h => absurd h Bool.false_ne_true, rfl, rfl, rfl, rfl⟩

variable {f : Feed} {q : InputQueue}

/-- The end of the thread. -/
theorem Shows.stop (h : Shows f q) (hhand : q.hand = []) : Shows f.stop (stopped q.pending) where
  sound hended := ⟨(h.sound hended).1, rfl⟩
  isOpen := rfl
  pending := h.pending
  hand := h.hand.trans hhand
  running := rfl

theorem Shows.arrive (h : Shows f q) (hrunning : q.running = true) (hhand : q.hand = [])
    (a : Arrival) : Shows (f.arrive a) (q.arrive a) := by
  cases a with
  | interrupted => exact h
  | failed => exact h.stop hhand
  | piece bytes =>
    cases bytes with
    | nil => exact h.stop hhand
    | cons b rest =>
      exact ⟨h.sound, h.isOpen.trans hrunning, h.pending, rfl, h.running.trans hrunning⟩

/-- A byte that is sent joins the back of the queue. -/
theorem Shows.send (h : Shows f q) {b : UInt8} {rest : List UInt8} (hhand : q.hand = b :: rest) :
    Shows { f with console := f.console.deliver [b], hand := rest }
      (feeding (q.pending ++ [Channel.keyCode b]) rest) := by
  have hrunning : q.running = true := by
    cases hstopped : q.running with
    | true => rfl
    | false => exact absurd (hhand.symm.trans (q.sent hstopped)) (List.cons_ne_nil b rest)
  have hopen : f.console.channel.isOpen = true := h.isOpen.trans hrunning
  have hended : f.console.ended = false := by
    cases hended : f.console.ended with
    | false => rfl
    | true => exact Bool.noConfusion (hopen.symm.trans (h.sound hended).2)
  have hdeliver : (f.console.deliver [b]).channel =
      ⟨f.console.channel.queue ++ [Channel.keyCode b], f.console.channel.isOpen⟩ := by
    rw [HostConsole.deliver, Channel.deliver, if_pos hopen]
    rfl
  have hsound : (f.console.deliver [b]).Sound := fun h =>
    absurd (hended.symm.trans h) Bool.false_ne_true
  refine ⟨hsound, ?_, ?_, rfl, h.running.trans hrunning⟩
  · rw [hdeliver]
    exact hopen
  · rw [hsound.pending_eq, hdeliver, ← List.append_assoc]
    exact congrArg (· ++ _) (h.sound.pending_eq.symm.trans h.pending)

/-- The console with its channel goes through the events that the queue goes through. -/
theorem Shows.next? (h : Shows f q) (e : Event) : Option.Rel Shows (f.next? e) (q.next? e) := by
  cases e with
  | arrival a =>
    simp only [Feed.next?, InputQueue.next?, h.running, h.hand]
    split
    · next henabled =>
      obtain ⟨hrunning, hhand⟩ := Bool.and_eq_true_iff.mp henabled
      exact .some (h.arrive hrunning (List.isEmpty_iff.mp hhand) a)
    · exact .none
  | send =>
    simp only [Feed.next?, InputQueue.next?, h.hand]
    cases hhand : q.hand with
    | nil => exact .none
    | cons b rest => exact .some (h.send hhand)
  | status ready =>
    simp only [Feed.next?, InputQueue.next?, HostConsole.status_eq h.sound, h.pending]
    split
    · obtain ⟨hsound, hopen⟩ := h.sound.status
      exact .some ⟨hsound, hopen.trans h.isOpen, (HostConsole.pending_status _).trans h.pending,
        h.hand, h.running⟩
    · exact .none
  | read key =>
    obtain ⟨hkey, hpending, hsound, hopen⟩ := HostConsole.read_eq h.sound
    have hblocks := HostConsole.blocks_eq h.sound
    rw [h.pending] at hkey hpending hblocks
    rw [h.isOpen] at hopen hblocks
    simp only [Feed.next?, InputQueue.next?, hkey, hblocks]
    split
    · exact .some ⟨hsound, hopen, hpending, h.hand, h.running⟩
    · exact .none

theorem Shows.after? (h : Shows f q) (events : List Event) :
    Option.Rel Shows (f.after? events) (q.after? events) := by
  induction events generalizing f q with
  | nil => exact .some h
  | cons e events ih =>
    have hnext := h.next? e
    simp only [Feed.after?, InputQueue.after?]
    cases hf : f.next? e <;> cases hq : q.next? e <;> rw [hf, hq] at hnext <;> cases hnext
    · exact .none
    · next hnext => exact ih hnext

/-! ### What a queue does -/

variable {r : InputQueue} {e : Event}

def incoming (q : InputQueue) : List UInt8 := q.pending ++ q.hand.map Channel.keyCode

theorem after?_append (q : InputQueue) (first second : List Event) :
    q.after? (first ++ second) = (q.after? first).bind fun r => r.after? second := by
  induction first generalizing q with
  | nil => rfl
  | cons e first ih =>
    simp only [List.cons_append, after?]
    cases q.next? e with
    | none => rfl
    | some r => exact ih r

theorem of_next?_arrival {a : Arrival} (h : q.next? (.arrival a) = some r) :
    q.running = true ∧ q.hand = [] ∧ r = q.arrive a := by
  simp only [next?, Option.ite_none_right_eq_some, Bool.and_eq_true_iff, List.isEmpty_iff,
    Option.some.injEq] at h
  exact ⟨h.1.1, h.1.2, h.2.symm⟩

theorem of_next?_send (h : q.next? .send = some r) :
    ∃ b rest, q.hand = b :: rest ∧ r = feeding (q.pending ++ [Channel.keyCode b]) rest := by
  simp only [next?] at h
  cases hhand : q.hand with
  | nil =>
    rw [hhand] at h
    cases h
  | cons b rest =>
    rw [hhand] at h
    exact ⟨b, rest, rfl, (Option.some.inj h).symm⟩

/-- A status call changes nothing. -/
theorem of_next?_status {ready : Bool} (h : q.next? (.status ready) = some r) :
    ready = !q.pending.isEmpty ∧ r = q := by
  simp only [next?, Option.ite_none_right_eq_some, Option.some.injEq] at h
  exact ⟨h.1.symm, h.2.symm⟩

theorem next?_read_eq_some_iff {key : Option UInt8} : q.next? (.read key) = some r ↔
    (q.pending = [] → q.running = false) ∧ q.pending.head? = key ∧
      { q with pending := q.pending.tail } = r := by
  simp only [next?, Option.ite_none_right_eq_some, Bool.and_eq_true_iff, Bool.not_eq_true',
    Bool.and_eq_false_imp, List.isEmpty_iff, decide_eq_true_eq, Option.some.injEq, and_assoc]

/-- An event takes from the front what it returns and puts at the back what arrives. -/
theorem next?_accounts (h : q.next? e = some r) :
    q.incoming ++ (delivered [e]).map Channel.keyCode = taken [e] ++ r.incoming := by
  cases e with
  | arrival a =>
    obtain ⟨-, hhand, rfl⟩ := of_next?_arrival h
    cases a with
    | piece bytes =>
      cases bytes with
      | nil => simp [incoming, hhand, arrive, stopped, delivered, taken]
      | cons b rest => simp [incoming, hhand, arrive, feeding, delivered, taken]
    | interrupted => simp [incoming, arrive, delivered, taken]
    | failed => simp [incoming, hhand, arrive, stopped, delivered, taken]
  | send =>
    obtain ⟨b, rest, hhand, rfl⟩ := of_next?_send h
    simp [incoming, hhand, feeding, delivered, taken]
  | status ready =>
    obtain ⟨-, rfl⟩ := of_next?_status h
    simp [delivered, taken]
  | read key =>
    obtain ⟨-, rfl, rfl⟩ := next?_read_eq_some_iff.mp h
    cases hpending : q.pending <;> simp [incoming, hpending, delivered, taken]

/-- Nothing is lost, made twice or put in another place. -/
theorem after?_accounts {events : List Event} (h : q.after? events = some r) :
    q.incoming ++ (delivered events).map Channel.keyCode = taken events ++ r.incoming := by
  induction events generalizing q with
  | nil =>
    cases h
    simp [delivered, taken]
  | cons e events ih =>
    obtain ⟨m, hm, hrest⟩ := Option.bind_eq_some_iff.mp h
    have hdelivered : delivered (e :: events) = delivered [e] ++ delivered events := by
      simp only [delivered, List.flatMap_cons, List.flatMap_nil, List.append_nil]
    have htaken : taken (e :: events) = taken [e] ++ taken events := by
      simp only [taken, List.flatMap_cons, List.flatMap_nil, List.append_nil]
    rw [hdelivered, htaken, List.map_append, ← List.append_assoc, next?_accounts hm,
      List.append_assoc, ih hrest, List.append_assoc]

/-- The thread can send all that it holds. -/
theorem after?_sends (q : InputQueue) :
    q.after? (List.replicate q.hand.length .send) =
      some ⟨q.incoming, [], q.running, fun _ => rfl⟩ := by
  obtain ⟨pending, hand, running, sent⟩ := q
  induction hand generalizing pending running with
  | nil => simp [after?, incoming]
  | cons b rest ih =>
    have hrunning : running = true := by
      cases running with
      | true => rfl
      | false => exact absurd (sent rfl) (List.cons_ne_nil b rest)
    subst hrunning
    have hrest := ih (pending ++ [Channel.keyCode b]) true (fun h => Bool.noConfusion h)
    simp only [incoming, List.append_assoc, List.singleton_append] at hrest
    simp only [List.length_cons, List.replicate_succ, after?, next?, Option.bind_some, feeding,
      hrest, incoming, List.map_cons]

/-- All that is pending can be read. -/
theorem after?_reads (q : InputQueue) :
    q.after? (q.pending.map fun b => .read (some b)) = some { q with pending := [] } := by
  obtain ⟨pending, hand, running, sent⟩ := q
  induction pending with
  | nil => rfl
  | cons b rest ih =>
    have hread : next? ⟨b :: rest, hand, running, sent⟩ (.read (some b)) =
        some ⟨rest, hand, running, sent⟩ :=
      next?_read_eq_some_iff.mpr ⟨fun h => absurd h (List.cons_ne_nil b rest), rfl, rfl⟩
    rw [List.map_cons, after?, hread]
    exact ih

/-- Only a read takes from the front. -/
theorem pending_isPrefix_next? (h : q.next? e = some r) (he : e.isRead = false) :
    q.pending <+: r.pending := by
  cases e with
  | arrival a =>
    obtain ⟨-, -, rfl⟩ := of_next?_arrival h
    cases a with
    | piece bytes => cases bytes <;> exact List.prefix_rfl
    | interrupted => exact List.prefix_rfl
    | failed => exact List.prefix_rfl
  | send =>
    obtain ⟨b, rest, -, rfl⟩ := of_next?_send h
    exact List.prefix_append _ _
  | status ready =>
    obtain ⟨-, rfl⟩ := of_next?_status h
    exact List.prefix_rfl
  | read key => exact Bool.noConfusion he

theorem pending_isPrefix_after? {events : List Event} (h : q.after? events = some r)
    (he : ∀ e ∈ events, e.isRead = false) : q.pending <+: r.pending := by
  induction events generalizing q with
  | nil =>
    cases h
    exact List.prefix_rfl
  | cons e events ih =>
    obtain ⟨m, hm, hrest⟩ := Option.bind_eq_some_iff.mp h
    exact (pending_isPrefix_next? hm (he e List.mem_cons_self)).trans
      (ih hrest fun e h => he e (List.mem_cons_of_mem _ h))

/-- Only what is sent joins the pending bytes. -/
theorem pending_after? {events : List Event} (h : q.after? events = some r)
    (he : ∀ e ∈ events, e ≠ .send ∧ e.isRead = false) : r.pending = q.pending := by
  induction events generalizing q with
  | nil =>
    cases h
    rfl
  | cons e events ih =>
    obtain ⟨m, hm, hrest⟩ := Option.bind_eq_some_iff.mp h
    have hsame : m.pending = q.pending := by
      obtain ⟨hsend, hread⟩ := he e List.mem_cons_self
      cases e with
      | arrival a =>
        obtain ⟨-, -, rfl⟩ := of_next?_arrival hm
        cases a with
        | piece bytes => cases bytes <;> rfl
        | interrupted => rfl
        | failed => rfl
      | send => exact absurd rfl hsend
      | status ready => rw [(of_next?_status hm).2]
      | read key => exact Bool.noConfusion hread
    exact (ih hrest fun e h => he e (List.mem_cons_of_mem _ h)).trans hsame

/-- Once nothing is left of an input that has ended, nothing else can happen than that the
console says so. -/
theorem ended_after? {events : List Event} (h : q.after? events = some r)
    (hpending : q.pending = []) (hrunning : q.running = false) :
    ∀ e ∈ events, e = .status false ∨ e = .read none := by
  induction events generalizing q with
  | nil => exact fun e he => absurd he List.not_mem_nil
  | cons e events ih =>
    obtain ⟨m, hm, hrest⟩ := Option.bind_eq_some_iff.mp h
    have hfirst : (e = .status false ∨ e = .read none) ∧ m = q := by
      cases e with
      | arrival a =>
        obtain ⟨hgoes, -, -⟩ := of_next?_arrival hm
        exact Bool.noConfusion (hgoes.symm.trans hrunning)
      | send =>
        obtain ⟨b, rest, hhand, -⟩ := of_next?_send hm
        exact absurd (hhand.symm.trans (q.sent hrunning)) (List.cons_ne_nil b rest)
      | status ready =>
        obtain ⟨hready, hsame⟩ := of_next?_status hm
        rw [hpending] at hready
        exact ⟨.inl (congrArg Event.status hready), hsame⟩
      | read key =>
        obtain ⟨-, rfl, rfl⟩ := next?_read_eq_some_iff.mp hm
        obtain ⟨pending, hand, running, sent⟩ := q
        cases hpending
        exact ⟨.inr rfl, rfl⟩
    rw [hfirst.2] at hrest
    intro e' he'
    rcases List.mem_cons.mp he' with rfl | he'
    · exact hfirst.1
    · exact ih hrest hpending hrunning e' he'

/-! ### What the console does -/

theorem Shows.incoming (h : Shows f q) : f.incoming = q.incoming := by
  rw [Feed.incoming, InputQueue.incoming, h.pending, h.hand]

/-- What can happen in front of the console can happen in front of the queue. -/
theorem Shows.of_after? (h : Shows f q) {events : List Event} {g : Feed}
    (hg : f.after? events = some g) : ∃ r, q.after? events = some r ∧ Shows g r := by
  have hrel := h.after? events
  rw [hg] at hrel
  cases hq : q.after? events with
  | none =>
    rw [hq] at hrel
    cases hrel
  | some r =>
    rw [hq] at hrel
    cases hrel with
    | some hshows => exact ⟨r, rfl, hshows⟩

theorem Shows.exists_after? (h : Shows f q) {events : List Event}
    (hr : q.after? events = some r) : ∃ g, f.after? events = some g ∧ Shows g r := by
  have hrel := h.after? events
  rw [hr] at hrel
  cases hf : f.after? events with
  | none =>
    rw [hf] at hrel
    cases hrel
  | some g =>
    rw [hf] at hrel
    cases hrel with
    | some hshows => exact ⟨g, rfl, hshows⟩

end InputQueue

namespace Feed

open InputQueue

/-- Input neither gets lost nor comes twice nor changes its order, whatever the order in which
it arrives, is sent, is asked for and is read, and however it ends.

- What was read is the front of what arrived, with carriage returns in the place of line
  feeds; the rest is still to come.
- All of the rest can be read, once the thread has sent what it holds.
- After a status call that says so, a read need not wait and returns a byte, whatever happens
  in between but another read.
- A status call takes nothing: what happens after it could happen without it. Repeated, it
  gives the same answer, unless something was sent or read in between.
- Once a read has found the end, every status call and every read does.
- Once the thread has ended, the console answers like a scripted one, at once. -/
theorem host_input_is_a_queue (events : List Event) (f : Feed)
    (h : initial.after? events = some f) :
    (delivered events).map Channel.keyCode = taken events ++ f.incoming ∧
    (∃ g, f.after? (List.replicate f.hand.length .send ++
      f.incoming.map fun b => .read (some b)) = some g ∧ g.incoming = []) ∧
    (∀ others g, f.after? (.status true :: others) = some g →
      (∀ e ∈ others, e.isRead = false) →
      g.console.blocks = false ∧ ∃ b k, g.next? (.read (some b)) = some k) ∧
    (∀ ready others g, f.after? (.status ready :: others) = some g →
      (∃ k, f.after? others = some k ∧ k.incoming = g.incoming) ∧
      ((∀ e ∈ others, e ≠ .send ∧ e.isRead = false) → g.console.status.1 = ready)) ∧
    (∀ others g, f.after? (.read none :: others) = some g →
      ∀ e ∈ others, e = .status false ∨ e = .read none) ∧
    (f.running = false →
      Console.SameInput f.console (ScriptedConsole.ofInput f.incoming) ∧
      ∀ requests, (Console.after f.console requests).blocks = false) := by
  obtain ⟨q, hq, hshows⟩ := shows_initial.of_after? h
  refine ⟨?_, ?_, fun others g hg hreads => ?_, fun ready others g hg => ?_,
    fun others g hg => ?_, fun hrunning => ?_⟩
  · rw [hshows.incoming]
    exact after?_accounts hq
  · have hall : q.after? (List.replicate q.hand.length .send ++
        q.incoming.map fun b => .read (some b)) = some ⟨[], [], q.running, fun _ => rfl⟩ := by
      rw [after?_append, q.after?_sends]
      exact after?_reads ⟨q.incoming, [], q.running, fun _ => rfl⟩
    obtain ⟨g, hg, hempty⟩ := hshows.exists_after? hall
    rw [hshows.hand, hshows.incoming]
    exact ⟨g, hg, hempty.incoming⟩
  · obtain ⟨r, hr, hend⟩ := hshows.of_after? hg
    obtain ⟨m, hm, hrest⟩ := Option.bind_eq_some_iff.mp hr
    obtain ⟨hready, hsame⟩ := of_next?_status hm
    rw [hsame] at hrest
    -- The byte that was seen is still in front.
    have hfront := pending_isPrefix_after? hrest hreads
    cases hpending : q.pending with
    | nil =>
      rw [hpending] at hready
      exact Bool.noConfusion hready
    | cons b rest =>
      obtain ⟨more, hmore⟩ := hfront
      rw [hpending] at hmore
      have hread : r.after? [.read (some b)] = some { r with pending := r.pending.tail } := by
        rw [InputQueue.after?, next?_read_eq_some_iff.mpr ⟨?_, ?_, rfl⟩]
        · rfl
        · exact fun h => absurd (hmore.trans h) (List.cons_ne_nil b _)
        · rw [← hmore]
          rfl
      obtain ⟨k, hk, -⟩ := hend.exists_after? hread
      obtain ⟨l, hl, -⟩ := Option.bind_eq_some_iff.mp hk
      refine ⟨?_, b, l, hl⟩
      rw [HostConsole.blocks_eq hend.sound, hend.pending, ← hmore]
      rfl
  · obtain ⟨r, hr, hend⟩ := hshows.of_after? hg
    obtain ⟨m, hm, hrest⟩ := Option.bind_eq_some_iff.mp hr
    obtain ⟨hready, hsame⟩ := of_next?_status hm
    rw [hsame] at hrest
    obtain ⟨k, hk, hother⟩ := hshows.exists_after? hrest
    refine ⟨⟨k, hk, hother.incoming.trans hend.incoming.symm⟩, fun hquiet => ?_⟩
    rw [HostConsole.status_eq hend.sound, hend.pending, pending_after? hrest hquiet, hready]
  · obtain ⟨r, hr, -⟩ := hshows.of_after? hg
    obtain ⟨m, hm, hrest⟩ := Option.bind_eq_some_iff.mp hr
    obtain ⟨hstopped, hnone, hsame⟩ := next?_read_eq_some_iff.mp hm
    rw [← hsame] at hrest
    have hpending : q.pending = [] := List.head?_eq_none_iff.mp hnone
    exact ended_after? hrest (congrArg List.tail hpending) (hstopped hpending)
  · have hstopped : q.running = false := hshows.running.symm.trans hrunning
    have hmatches : f.console.Matches (ScriptedConsole.ofInput f.incoming) := by
      refine ⟨hshows.sound, hshows.isOpen.trans hstopped, ?_⟩
      have hhand : f.hand = [] := hshows.hand.trans (q.sent hstopped)
      rw [incoming, hhand, List.map_nil, List.append_nil]
      rfl
    exact ⟨hmatches.sameInput, fun requests => (hmatches.after requests).blocks⟩

/-- A key that a status call took ahead is read before the rest of its line, after the input
has failed; and behind the end of an empty input there is nothing. -/
theorem typed_line_is_read :
    let typed : List Event := [.arrival (.piece [0x41, 0x0A]), .send, .status true, .send,
      .arrival .interrupted, .arrival .failed]
    let f : Feed := ⟨⟨⟨[0x0D], false⟩, some 0x41, false, false, #[]⟩, [], false⟩
    let silence : List Event := [.status false, .read none]
    initial.after? typed = some f ∧ [0x41, 0x0D] = f.incoming ∧
    (∃ g, f.after? [.read (some 0x41), .read (some 0x0D)] = some g ∧ g.incoming = []) ∧
    f.after? [.status true, .status true] = some f ∧
    (∃ b k, f.next? (.read (some b)) = some k) ∧ f.console.status.1 = true ∧
    Console.SameInput f.console (ScriptedConsole.ofInput f.incoming) ∧
    initial.after? [.arrival (.piece [])] = some initial.stop ∧
    (∃ g, initial.stop.after? (.read none :: silence) = some g) ∧
    ∀ e ∈ silence, e = .status false ∨ e = .read none := by
  intro typed f silence
  have htyped : initial.after? typed = some f := by decide
  have hagain : f.after? [.status true, .status true] = some f := by decide
  obtain ⟨haccounts, hall, hready, hstatus, -, hended⟩ := host_input_is_a_queue typed f htyped
  obtain ⟨-, hread⟩ := hready [.status true] f hagain (by decide)
  obtain ⟨-, hrepeated⟩ := hstatus true [.status true] f hagain
  have hstop : initial.after? [.arrival (.piece [])] = some initial.stop := by decide
  have hsilent : initial.stop.after? (.read none :: silence) =
      some ⟨{ initial.stop.console with ended := true }, [], false⟩ := by decide
  obtain ⟨-, -, -, -, hsilence, -⟩ := host_input_is_a_queue _ _ hstop
  exact ⟨htyped, haccounts, hall, hagain, hread, hrepeated (by decide), (hended rfl).1, hstop,
    ⟨_, hsilent⟩, hsilence silence _ hsilent⟩

end Feed

end Cpm
