import UefiStub.Console.Basic
import UefiStub.Memory.Pool

/-!
# The wait for a key

`efi_wait_for_key` creates a timer event, waits for it or the key event and
closes it again. It closes no other event, and none twice. The return after a
`set_timer` that failed leaves the timer event open.
-/

namespace UefiStub

open Interact

/-- The event a call has created. -/
def createdEvent : Event Op Op.Ans → Option Ptr
  | ⟨.createEvent _, (status, event)⟩ => if status = efiSuccess then some event else none
  | _ => none

/-- The event a call closes. -/
def closedEvent : Event Op Op.Ans → Option Ptr
  | ⟨.closeEvent event, _⟩ => some event
  | _ => none

def createdEvents (tr : Trace) : List Ptr := tr.filterMap createdEvent

def closedEvents (tr : Trace) : List Ptr := tr.filterMap closedEvent

/-- Every `set_timer` was answered with this status. -/
def TimerAnswers (status : Status) (tr : Trace) : Prop :=
  ∀ event delay time x, ⟨.setTimer event delay time, x⟩ ∈ tr → x = status

/-- Every `read_keystroke` that succeeded has stored a key. -/
def StoresKeys (tr : Trace) : Prop :=
  ∀ conin x, ⟨.readKeystroke conin, x⟩ ∈ tr → x.1 = efiSuccess → x.2.isSome

/-- The key event fired, and `read_keystroke` succeeded with this key. -/
def KeyRead (key : Option InputKey) (tr : Trace) : Prop :=
  ∃ conin keyEvent timer, ⟨.loadWaitForKey conin, keyEvent⟩ ∈ tr ∧
    ⟨.waitForEvent [keyEvent, timer], (efiSuccess, some 0)⟩ ∈ tr ∧
    ⟨.readKeystroke conin, (efiSuccess, key)⟩ ∈ tr

/-- Every event that was created has been closed, once, and success means that a key was read. -/
structure WaitSettled (r : Status × Option InputKey) (tr : Trace) : Prop where
  closes : closedEvents tr = createdEvents tr
  read : r.1 = efiSuccess → KeyRead r.2 tr
  stored : r.1 = efiSuccess → StoresKeys tr → r.2.isSome

/-- No event is closed but the ones created, and the wait is settled in the end. -/
def WaitKept (p : Uefi (Status × Option InputKey)) (tr : Trace) : Prop :=
  closedEvents tr <+: createdEvents tr ∧ ∀ r, p = .ret r → WaitSettled r tr

theorem WaitSettled.failed {status : Status} {key : Option InputKey} {tr : Trace}
    (h : status ≠ efiSuccess) (hclosed : closedEvents tr = createdEvents tr) :
    WaitSettled (status, key) tr :=
  ⟨hclosed, fun hs => absurd hs h, fun hs => absurd hs h⟩

theorem WaitSettled.of_read {key : Option InputKey} {tr : Trace} (h : KeyRead key tr)
    (hclosed : closedEvents tr = createdEvents tr) : WaitSettled (efiSuccess, key) tr := by
  refine ⟨hclosed, fun _ => h, fun _ hstores => ?_⟩
  obtain ⟨conin, keyEvent, timer, -, -, hmem⟩ := h
  exact hstores conin _ hmem rfl

/-- The event created stays open until it is closed. -/
theorem safe_efiWaitForKey (usecs : U32) :
    Safe History (fun tr _ => closedEvents tr <+: createdEvents tr)
      (fun r tr => closedEvents tr <+: createdEvents tr ∧
        (TimerAnswers efiSuccess tr → WaitSettled r tr))
      (efiWaitForKey usecs) [] := by
  have hdone {r : Status × Option InputKey} {tr : Trace} (h : WaitSettled r tr) :
      closedEvents tr <+: createdEvents tr ∧ (TimerAnswers efiSuccess tr → WaitSettled r tr) :=
    ⟨h.closes ▸ List.prefix_refl _, fun _ => h⟩
  unfold efiWaitForKey
  refine .op_bind List.nil_prefix fun conin _ => ?_
  by_cases hconin : conin = 0
  · rw [if_pos hconin]
    exact .ret (hdone (.failed (by decide) rfl))
  rw [if_neg hconin]
  refine .op_bind List.nil_prefix fun keyEvent _ => ?_
  refine .op_bind List.nil_prefix fun ⟨created, timer⟩ _ => ?_
  dsimp only
  by_cases hcreated : created = efiSuccess
  swap
  · rw [if_pos hcreated]
    refine .ret (hdone (.failed hcreated ?_))
    have hnone : createdEvent ⟨.createEvent efiEvtTimer, (created, timer)⟩ = none := if_neg hcreated
    change [] = [⟨.loadConsoleIn, conin⟩, ⟨.loadWaitForKey conin, keyEvent⟩,
      ⟨.createEvent efiEvtTimer, (created, timer)⟩].filterMap createdEvent
    rw [List.filterMap_cons_none rfl, List.filterMap_cons_none rfl, List.filterMap_cons_none hnone]
    rfl
  subst hcreated
  rw [if_neg fun h => h rfl]
  refine .op_bind List.nil_prefix fun timerSet _ => ?_
  by_cases hset : timerSet = efiSuccess
  swap
  · rw [if_pos hset]
    exact .ret ⟨List.nil_prefix, fun h => absurd
      (h _ _ _ timerSet (List.mem_append_right _ (List.mem_singleton.mpr rfl))) hset⟩
  subst hset
  rw [if_neg fun h => h rfl]
  refine .op_bind List.nil_prefix fun ⟨status, eventIdx⟩ _ => ?_
  dsimp only
  by_cases hwait : status = efiSuccess
  swap
  · rw [if_pos hwait]
    exact .op_bind List.nil_prefix fun _ _ => .ret (hdone (.failed hwait rfl))
  subst hwait
  rw [if_neg fun h => h rfl]
  by_cases hidx : eventIdx.getD 3 = 0
  swap
  · rw [if_neg hidx]
    exact .op_bind List.nil_prefix fun _ _ => .ret (hdone (.failed (by decide) rfl))
  rw [if_pos hidx]
  obtain rfl : eventIdx = some 0 := by
    cases eventIdx with
    | none => exact absurd hidx (by decide)
    | some i => exact congrArg some hidx
  refine .op_bind List.nil_prefix fun ⟨status, key⟩ _ => .op_bind List.nil_prefix fun x _ => ?_
  by_cases hread : status = efiSuccess
  · subst hread
    exact .ret (hdone (.of_read ⟨conin, keyEvent, timer, by simp, by simp, by simp⟩ rfl))
  · exact .ret (hdone (.failed hread rfl))

/-- A timer that cannot be set stays open. -/
theorem reach_timer_open (usecs : U32) {status : Status} (h : status ≠ efiSuccess) :
    ∃ r tr, Reach History (efiWaitForKey usecs, []) (.ret r, tr) ∧ TimerAnswers status tr ∧
      closedEvents tr ≠ createdEvents tr := by
  have hr : Reach History (efiWaitForKey usecs, []) (.ret (status, none),
      [⟨.loadConsoleIn, (0x1000 : Ptr)⟩, ⟨.loadWaitForKey 0x1000, (0x2000 : Ptr)⟩,
        ⟨.createEvent efiEvtTimer, (efiSuccess, 0x3000)⟩,
        ⟨.setTimer 0x3000 efiTimerRelative (10 * usecs.setWidth 64), status⟩]) := by
    refine reach_record (x := (0x1000 : Ptr)) trivial ?_
    refine reach_record (x := (0x2000 : Ptr)) trivial ?_
    refine reach_record (x := (efiSuccess, 0x3000)) trivial ?_
    refine reach_record (x := status) trivial ?_
    change Reach _ ((if status ≠ efiSuccess then _ else _), _) _
    rw [if_pos h]
    exact .refl
  refine ⟨_, _, hr, fun event delay time x hx => ?_, ?_⟩
  · simp only [List.mem_cons, List.not_mem_nil, or_false] at hx
    rcases hx with hx | hx | hx | hx
    · cases hx
    · cases hx
    · cases hx
    · cases hx
      rfl
  · change [] ≠ [(0x3000 : Ptr)]
    decide

/-- **The timer event.** In every run with this status of `set_timer` the event is closed once if
it was created, no other is closed, and success means that a key was read, exactly where the
status is `EFI_SUCCESS`. -/
theorem efiWaitForKey_settles_iff (usecs : U32) (status : Status) :
    (∀ p tr, Reach History (efiWaitForKey usecs, []) (p, tr) → TimerAnswers status tr →
      WaitKept p tr) ↔ status = efiSuccess := by
  constructor
  · intro h
    by_contra hne
    obtain ⟨r, tr, hr, htimer, hopen⟩ := reach_timer_open usecs hne
    exact hopen ((h _ tr hr htimer).2 r rfl).closes
  · rintro rfl p tr hr htimer
    have hs := (safe_efiWaitForKey usecs).of_reach hr
    cases p with
    | call o k => exact ⟨(Safe.call_iff.mp hs).1, fun r h => by cases h⟩
    | ret r =>
      have hret := Safe.ret_iff.mp hs
      refine ⟨hret.1, fun r' h => ?_⟩
      cases h
      exact hret.2 htimer

/-- A timer that cannot be set. -/
theorem not_efiWaitForKey_settles : ¬∀ (usecs : U32) (p : Uefi (Status × Option InputKey))
    (tr : Trace), Reach History (efiWaitForKey usecs, []) (p, tr) → WaitKept p tr := by
  intro h
  obtain ⟨r, tr, hr, -, hopen⟩ :=
    @reach_timer_open 10000000 efiInvalidParameter (by decide)
  exact hopen ((h _ _ tr hr).2 r rfl).closes

end UefiStub
