import Cpm.Console

/-!
# What is asked of a console

All that a console shows is its answers, so what it will show is told by the requests that
were made of it. Consoles that answer every sequence of requests alike have the same input
to come. One console stands for all of these: its state is the list of the requests made so
far, and each of them is its image.
-/

namespace Cpm.Console

inductive Request where
  | status | read
  | write (b : UInt8)
  deriving DecidableEq, Repr

variable {κ υ : Type} [Console κ] [Console υ]

def request (c : κ) : Request → κ
  | .status => (status c).2
  | .read => (read c).2
  | .write b => write c b

def after (c : κ) (requests : List Request) : κ := requests.foldl request c

@[simp] theorem after_concat (c : κ) (requests : List Request) (r : Request) :
    after c (requests ++ [r]) = request (after c requests) r := by
  simp only [after, List.foldl_append, List.foldl_cons, List.foldl_nil]

/-- Two consoles have the same input to come: whatever is asked of both, they answer alike
and hold as many bytes. -/
structure SameInput (c : κ) (d : υ) : Prop where
  status : ∀ requests,
    (Console.status (after c requests)).1 = (Console.status (after d requests)).1
  read : ∀ requests, (Console.read (after c requests)).1 = (Console.read (after d requests)).1
  remaining : ∀ requests,
    Console.remaining (after c requests) = Console.remaining (after d requests)

theorem SameInput.refl (c : κ) : SameInput c c := ⟨fun _ => rfl, fun _ => rfl, fun _ => rfl⟩

theorem SameInput.trans {ι : Type} [Console ι] {b : ι} {c : κ} {d : υ} (h : SameInput b c)
    (h' : SameInput c d) : SameInput b d where
  status requests := (h.status requests).trans (h'.status requests)
  read requests := (h.read requests).trans (h'.read requests)
  remaining requests := (h.remaining requests).trans (h'.remaining requests)

/-- A request leaves them the same input. -/
theorem SameInput.request {c : κ} {d : υ} (h : SameInput c d) (r : Request) :
    SameInput (request c r) (request d r) where
  status requests := h.status (r :: requests)
  read requests := h.read (r :: requests)
  remaining requests := h.remaining (r :: requests)

def written (requests : List Request) : List UInt8 :=
  requests.filterMap fun
    | .write b => some b
    | _ => none

theorem written_append (requests others : List Request) :
    written (requests ++ others) = written requests ++ written others :=
  List.filterMap_append

theorem written_write (bytes : List UInt8) : written (bytes.map .write) = bytes := by
  rw [written, List.filterMap_map]
  exact List.filterMap_some

/-- Showing several characters is as many requests. -/
theorem after_write (c : κ) (bytes : List UInt8) :
    after c (bytes.map .write) = writeAll c bytes :=
  List.foldl_map

theorem after_append (c : κ) (requests others : List Request) :
    after c (requests ++ others) = after (after c requests) others :=
  List.foldl_append

/-- The console whose state is the requests made of `c` so far. -/
@[reducible]
def transcript (c : κ) : Console (List Request) where
  status requests := ((status (after c requests)).1, requests ++ [.status])
  read requests := ((read (after c requests)).1, requests ++ [.read])
  write requests b := requests ++ [.write b]
  remaining requests := remaining (after c requests)
  remaining_read := by
    rintro requests left b h
    obtain ⟨hread, rfl⟩ := Prod.mk.injEq _ _ _ _ ▸ h
    rw [after_concat]
    exact remaining_read (Prod.ext hread rfl)

/-- The states of a console have images in another one, which answer alike. -/
structure Maps (f : κ → υ) : Prop where
  status : ∀ c, Console.status (f c) = ((Console.status c).1, f (Console.status c).2)
  read : ∀ c, Console.read (f c) = ((Console.read c).1, f (Console.read c).2)
  write : ∀ c b, Console.write (f c) b = f (Console.write c b)
  remaining : ∀ c, Console.remaining (f c) = Console.remaining c

/-- A console with the same input is the image of the requests made of the other. -/
theorem SameInput.maps {c : κ} {d : υ} (h : SameInput c d) :
    @Maps _ _ (transcript c) _ (after d) := by
  let console := transcript c
  refine ⟨fun requests => ?_, fun requests => ?_, fun requests b => ?_, fun requests => ?_⟩
  · exact Prod.ext (h.status requests).symm (after_concat d requests .status).symm
  · exact Prod.ext (h.read requests).symm (after_concat d requests .read).symm
  · exact (after_concat d requests (.write b)).symm
  · exact (h.remaining requests).symm

end Cpm.Console

namespace Cpm.ScriptedConsole

/-- What was shown so far is no matter. -/
theorem sameInput {c d : ScriptedConsole} (h : c.input = d.input) : Console.SameInput c d := by
  have hrequest : ∀ (c d : ScriptedConsole) (r : Console.Request), c.input = d.input →
      (Console.request c r).input = (Console.request d r).input := by
    intro c d r h
    cases r with
    | status => exact h
    | write b => exact h
    | read =>
      simp only [Console.request, Console.read, read, h]
      cases d.input with
      | nil => exact h
      | cons b rest => rfl
  have hafter : ∀ requests, (Console.after c requests).input =
      (Console.after d requests).input := by
    intro requests
    induction requests generalizing c d with
    | nil => exact h
    | cons r requests ih => exact ih (hrequest c d r h)
  refine ⟨fun requests => ?_, fun requests => ?_, fun requests => ?_⟩
  · exact congrArg (fun input => !input.isEmpty) (hafter requests)
  · have hread : ∀ k : ScriptedConsole, (Console.read k).1 = k.input.head? := by
      intro k
      simp only [Console.read, read]
      cases k.input <;> rfl
    rw [hread, hread, hafter]
  · exact congrArg List.length (hafter requests)

/-- What was shown is the bytes of the requests. -/
theorem output_after (c : ScriptedConsole) (requests : List Console.Request) :
    (Console.after c requests).output.toList = c.output.toList ++ Console.written requests := by
  induction requests generalizing c with
  | nil => exact (List.append_nil _).symm
  | cons r requests ih =>
    refine (ih (Console.request c r)).trans ?_
    cases r with
    | status => rfl
    | read =>
      have hread : (Console.read c).2.output = c.output := by
        simp only [Console.read, read]
        cases c.input <;> rfl
      exact congrArg (·.toList ++ Console.written requests) hread
    | write b =>
      have hwrite : (Console.write c b).output.toList = c.output.toList ++ [b] := Array.toList_push
      exact (congrArg (· ++ Console.written requests) hwrite).trans (List.append_assoc _ _ _)

end Cpm.ScriptedConsole
