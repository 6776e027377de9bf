import UefiStub.Console.Basic

/-!
# The calls of the console

Console output and the wait for a key make only calls of the console and of
the timer.
-/

namespace UefiStub

open Interact

/-- Output may be undefined where a string has no terminator. -/
def PrintCall : Op → Prop
  | .ub | .outputString _ => True
  | _ => False

theorem print_lift {α : Type} (x : Option α) : Only PrintCall (lift x) := by
  cases x with
  | none => exact .call trivial fun x => x.elim
  | some a => exact .ret a

theorem print_char16Puts (str : Buf U16) : Only PrintCall (efiChar16Puts str) :=
  (print_lift _).bind fun _ => .op_bind trivial fun _ => .ret _

theorem print_putsLoop (fuel : Nat) (buf : Buf U16) (pos : Nat) (s8 : CStr) :
    Only PrintCall (efiPutsLoop fuel buf pos s8) := by
  induction fuel generalizing buf pos s8 with
  | zero => exact print_lift none
  | succ fuel ih =>
    unfold efiPutsLoop
    refine (print_lift _).bind fun c => ?_
    split
    · exact .ret _
    · refine (print_lift _).bind fun st => (print_lift _).bind fun c => ?_
      split
      · exact (print_lift _).bind fun buf => (print_char16Puts _).bind fun _ => ih _ _ _
      · exact ih _ _ _

theorem print_puts (str : CStr) : Only PrintCall (efiPuts str) := print_putsLoop _ _ _ _

theorem print_putd (value : U64) : Only PrintCall (efiPutd value) :=
  (print_lift _).bind fun _ => print_puts _

def ConsoleCall : Op → Prop
  | .loadConsoleIn | .loadWaitForKey _ | .readKeystroke _ | .createEvent _ | .setTimer _ _ _
  | .waitForEvent _ | .closeEvent _ | .stall _ => True
  | o => PrintCall o

theorem console_print {α : Type} {p : Uefi α} (hp : Only PrintCall p) : Only ConsoleCall p :=
  hp.mono fun o ho => by cases o <;> first | exact absurd ho id | trivial

theorem console_lift {α : Type} (x : Option α) : Only ConsoleCall (lift x) :=
  console_print (print_lift x)

theorem console_puts (str : CStr) : Only ConsoleCall (efiPuts str) := console_print (print_puts str)

theorem console_putd (value : U64) : Only ConsoleCall (efiPutd value) :=
  console_print (print_putd value)

/-- Reads the keyboard or waits for it. -/
def Listens : Op → Prop
  | .loadConsoleIn | .loadWaitForKey _ | .createEvent _ | .setTimer _ _ _ | .waitForEvent _
  | .closeEvent _ | .readKeystroke _ => True
  | _ => False

theorem listens_waitForKey (usecs : U32) : Only Listens (efiWaitForKey usecs) := by
  unfold efiWaitForKey
  refine .op_bind trivial fun conin => ?_
  split
  · exact .ret _
  refine .op_bind trivial fun keyEvent => .op_bind trivial fun ⟨status, timer⟩ => ?_
  dsimp only
  split
  · exact .ret _
  refine .op_bind trivial fun status => ?_
  split
  · exact .ret _
  refine .op_bind trivial fun ⟨status, eventIdx⟩ => ?_
  dsimp only
  split
  · exact .op_bind trivial fun _ => .ret _
  split
  · exact .op_bind trivial fun ⟨status, key⟩ => .op_bind trivial fun _ => .ret _
  · exact .op_bind trivial fun _ => .ret _

/-- The wait has no undefined behaviour. -/
theorem only_waitForKey {P : Op → Prop} (hP : ∀ o, ConsoleCall o → o ≠ .ub → P o) (usecs : U32) :
    Only P (efiWaitForKey usecs) :=
  (listens_waitForKey usecs).mono fun o ho => by
    cases o <;> first | exact absurd ho id | exact hP _ trivial nofun

theorem console_waitForKey (usecs : U32) : Only ConsoleCall (efiWaitForKey usecs) :=
  only_waitForKey (fun _ h _ => h) usecs

end UefiStub
