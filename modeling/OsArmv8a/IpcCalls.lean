import OsArmv8a.Ipc
import OsArmv8a.UserCopy

/-! The system calls on the channels of `ipc.c`, with their copies from and to user memory, and the
wrappers of libc around them. -/

set_option autoImplicit false

namespace OsArmv8a.IpcCalls

open Mmu Ipc

abbrev Boxes := Fin 8 → Mailbox

def Boxes.set (boxes : Boxes) (k : Fin 8) (box : Mailbox) : Boxes :=
  fun j => if j = k then box else boxes j

/-- The copy loop of `sys_ipc_send`, a byte at a time; `fuel` bounds the rounds of each copy. -/
def fetchBytes (layout : VmLayout) (id fuel : Nat) :
    Nat → World → Nat → Option (Option (List UInt8) × World)
  | 0, w, _ => some (some [], w)
  | len + 1, w, va =>
    match copyFromUser layout true id fuel w va 1 [] with
    | none => none
    | some (false, w, _) => some (none, w)
    | some (true, w, bytes) =>
      (fetchBytes layout id fuel len w (Word64.add va 1)).map fun (rest, w) =>
        (rest.map (bytes.map UInt8.ofBitVec ++ ·), w)

/-- The copy loop of `sys_ipc_recv`. -/
def storeBytes (layout : VmLayout) (id fuel : Nat) :
    World → Nat → List UInt8 → Option (Bool × World)
  | w, _, [] => some (true, w)
  | w, va, byte :: rest =>
    match copyToUser layout true id fuel w va [byte.toBitVec] with
    | none => none
    | some (false, w) => some (false, w)
    | some (true, w) => storeBytes layout id fuel w (Word64.add va 1) rest

/-- `sys_ipc_send` of the task that runs in address space `id`. -/
def sysIpcSend (layout : VmLayout) (id fuel : Nat) (boxes : Boxes) (w : World)
    (channel buf len : Nat) : Option (Nat × Boxes × World) :=
  if len = 0 ∨ 64 < len then some (2 ^ 64 - 1, boxes, w)
  else
    (fetchBytes layout id fuel len w buf).map fun
      | (none, w) => (2 ^ 64 - 1, boxes, w)
      | (some data, w) =>
        if valid : channel < 8 then
          match (boxes ⟨channel, valid⟩).send data with
          | (.accepted data, box) => (data.length, boxes.set ⟨channel, valid⟩ box, w)
          | _ => (2 ^ 64 - 1, boxes, w)
        else (2 ^ 64 - 1, boxes, w)

/-- One attempt of `sys_ipc_recv`. The result is `none` when the caller parks on the queue of the
channel; it then makes another attempt. -/
def sysIpcRecv (layout : VmLayout) (id fuel : Nat) (boxes : Boxes) (w : World)
    (channel buf capacity : Nat) : Option (Option Nat × Boxes × World) :=
  if capacity = 0 ∨ 64 < capacity then some (some (2 ^ 64 - 1), boxes, w)
  else if valid : channel < 8 then
    match (boxes ⟨channel, valid⟩).receive capacity with
    | (.delivered data, box) =>
      (storeBytes layout id fuel w buf data).map fun (stored, w) =>
        (some (if stored = true then data.length else 2 ^ 64 - 1), boxes.set ⟨channel, valid⟩ box, w)
    | (.empty, _) => some (none, boxes, w)
    | _ => some (some (2 ^ 64 - 1), boxes, w)
  else some (some (2 ^ 64 - 1), boxes, w)

/-- `ipc_send` of libc. -/
def ipcSend (layout : VmLayout) (id fuel : Nat) (boxes : Boxes) (w : World) (channel buf len : Nat) :
    Option (Nat × Boxes × World) := sysIpcSend layout id fuel boxes w channel buf len

/-- `ipc_recv` of libc. The first argument of the system call is the address `tidOut` of a local
variable; the channel is not used. -/
def ipcRecv (layout : VmLayout) (id fuel : Nat) (boxes : Boxes) (w : World)
    (_channel buf capacity tidOut : Nat) : Option (Option Nat × Boxes × World) :=
  sysIpcRecv layout id fuel boxes w tidOut buf capacity

/-- A copy of one of the bytes to user memory fails. -/
inductive Refused (layout : VmLayout) (id fuel : Nat) : World → Nat → List UInt8 → Prop where
  | here {w t : World} {va : Nat} {byte : UInt8} {rest : List UInt8}
      (failed : copyToUser layout true id fuel w va [byte.toBitVec] = some (false, t)) :
      Refused layout id fuel w va (byte :: rest)
  | later {w t : World} {va : Nat} {byte : UInt8} {rest : List UInt8}
      (copied : copyToUser layout true id fuel w va [byte.toBitVec] = some (true, t))
      (failed : Refused layout id fuel t (Word64.add va 1) rest) :
      Refused layout id fuel w va (byte :: rest)

section Receive

variable {layout : VmLayout} {id fuel channel buf capacity : Nat} {boxes : Boxes} {w : World}

theorem storeBytes_failed (data : List UInt8) : ∀ (w : World) (va : Nat),
    (∃ t, storeBytes layout id fuel w va data = some (false, t)) ↔
      Refused layout id fuel w va data := by
  induction data with
  | nil =>
    intro w va
    constructor
    · rintro ⟨t, result⟩
      cases result
    · intro refused
      cases refused
  | cons byte rest ih =>
    intro w va
    unfold storeBytes
    constructor
    · rintro ⟨t, result⟩
      split at result
      · cases result
      · rename_i u copied
        exact .here copied
      · rename_i u copied
        exact .later copied ((ih u _).mp ⟨t, result⟩)
    · intro refused
      cases refused with
      | here failed => exact ⟨_, by rw [failed]⟩
      | later copied failed =>
        obtain ⟨t, result⟩ := (ih _ _).mpr failed
        exact ⟨t, by rw [copied]; exact result⟩

/-- When the call fails, every channel holds the message that it held. -/
def Lossless (layout : VmLayout) (id fuel : Nat) (boxes : Boxes) (w : World)
    (channel buf capacity : Nat) : Prop :=
  ∀ after t, sysIpcRecv layout id fuel boxes w channel buf capacity =
    some (some (2 ^ 64 - 1), after, t) → ∀ k, (after k).message = (boxes k).message

/-- The channel holds a message that is short enough, and a copy of one of its bytes fails. -/
def Drops (layout : VmLayout) (id fuel : Nat) (boxes : Boxes) (w : World)
    (channel buf capacity : Nat) : Prop :=
  0 < capacity ∧ capacity ≤ 64 ∧ ∃ (valid : channel < 8) (data : List UInt8),
    (boxes ⟨channel, valid⟩).message = some data ∧ data.length ≤ capacity ∧
      Refused layout id fuel w buf data

theorem receive_fits {box : Mailbox} {data : List UInt8} (held : box.message = some data)
    (fits : data.length ≤ capacity) (sized : ¬ (capacity = 0 ∨ 64 < capacity)) :
    ∃ after, box.receive capacity = (.delivered data, after) ∧ after.message = none := by
  have length := Mailbox.length_of_message held
  obtain ⟨full, same⟩ := Option.ite_none_right_eq_some.mp held
  refine ⟨{ box with hasMessage := false, length := 0 }, ?_, rfl⟩
  unfold Mailbox.receive
  rw [if_neg sized, if_pos full, if_neg (by omega), Option.some.inj same]

/-- A receive that fails loses no message exactly if no message is being dropped: the mailbox is
emptied before the bytes are copied to the caller. -/
theorem sysIpcRecv_lossless : Lossless layout id fuel boxes w channel buf capacity ↔
    ¬ Drops layout id fuel boxes w channel buf capacity := by
  constructor
  · rintro lossless ⟨positive, bounded, valid, data, held, fits, refused⟩
    have sized : ¬ (capacity = 0 ∨ 64 < capacity) := by omega
    obtain ⟨after, taken, empty⟩ := receive_fits held fits sized
    obtain ⟨t, stored⟩ := (storeBytes_failed data w buf).mpr refused
    have result : sysIpcRecv layout id fuel boxes w channel buf capacity =
        some (some (2 ^ 64 - 1), boxes.set ⟨channel, valid⟩ after, t) := by
      unfold sysIpcRecv
      rw [if_neg sized, dif_pos valid, taken]
      simp [stored]
    have kept := lossless _ t result ⟨channel, valid⟩
    rw [held, Boxes.set, if_pos rfl, empty] at kept
    cases kept
  · intro kept after t result
    unfold sysIpcRecv at result
    split at result
    · cases result
      exact fun _ => rfl
    split at result
    · rename_i valid
      rcases (boxes ⟨channel, valid⟩).receive_cases capacity with
        failed | none | ⟨data, box, held, taken, empty⟩
      · rw [failed] at result
        cases result
        exact fun _ => rfl
      · rw [none] at result
        cases result
      · rw [taken] at result
        obtain ⟨⟨stored, u⟩, copied, same⟩ := Option.map_eq_some_iff.mp result
        have fits : data.length ≤ capacity := by
          have message := Mailbox.receive_message (boxes ⟨channel, valid⟩) capacity
          by_contra long
          rw [taken, if_neg, held] at message
          · exact nomatch empty.symm.trans message
          · rintro ⟨-, other, found, short⟩
            cases Option.some.inj (held.symm.trans found)
            exact long short
        cases stored with
        | true =>
          -- a delivered message is far shorter than the value of -1
          simp only [if_true, Prod.mk.injEq, Option.some.injEq] at same
          omega
        | false =>
          exact absurd ⟨by omega, by omega, valid, data, held, fits,
            (storeBytes_failed data w buf).mp ⟨u, copied⟩⟩ kept
    · cases result
      exact fun _ => rfl

end Receive

/-- The channels after `ipc_init`. -/
def quiet : Boxes := fun _ => { hasMessage := false, length := 0, buffer := fun _ => 0 }

/-- Channel 0 holds the byte 7; the receiver's buffer is unmapped. The call fails and the message is
gone. -/
theorem sysIpcRecv_lost :
    ∃ s, Transition.run Mmu.step (booted (PageAlloc.init sixteenPages (fun _ => 0) true))
        [.create (some 1)] = some s ∧
      ((quiet.set 0 ((quiet 0).send [7]).2) 0).message = some [7] ∧
      ¬ Lossless sampleLayout 1 3 (quiet.set 0 ((quiet 0).send [7]).2) s.world 0 0 8 := by
  refine Transition.ends_imp (Q := fun s => ∃ result, sysIpcRecv sampleLayout 1 3
    (quiet.set 0 ((quiet 0).send [7]).2) s.world 0 0 8 = some result ∧
      result.1 = some (2 ^ 64 - 1) ∧ (result.2.1 0).message = none) (by decide +kernel) ?_
  rintro s - ⟨⟨n, after, t⟩, result, rfl, gone⟩
  refine ⟨by decide, fun lossless => ?_⟩
  have kept := lossless after t result 0
  dsimp only at gone
  rw [gone] at kept
  exact absurd kept (by decide)

section Libc

variable {layout receiver : VmLayout} {id other fuel : Nat} {boxes : Boxes} {w u : World}
  {channel source buf capacity tidOut : Nat} {message : List UInt8}

/-- The receiver gets the whole message: the call returns its length, and the buffer starts with it. -/
def Gets (layout : VmLayout) (id fuel : Nat) (boxes : Boxes) (w : World)
    (channel buf capacity tidOut : Nat) (message : List UInt8) : Prop :=
  ∃ after t, ipcRecv layout id fuel boxes w channel buf capacity tidOut =
      some (some message.length, after, t) ∧
    ∀ i byte, message[i]? = some byte →
      readUser t.pages.mem (t.contexts id) (buf + i) = some byte.toBitVec

theorem ipcRecv_refused (aligned : 8 ∣ tidOut) (placed : tidOut ≠ 0) :
    ipcRecv layout id fuel boxes w channel buf capacity tidOut =
      some (some (2 ^ 64 - 1), boxes, w) := by
  unfold ipcRecv sysIpcRecv
  split
  · rfl
  · rw [dif_neg (by omega)]

/-- A message that `ipc_send` has accepted is never received with `ipc_recv`: wherever the local
variable of `ipc_recv` is (aligned, and not at the null pointer), its address is no channel. -/
theorem ipcRecv_never (short : message.length ≤ 64)
    (sent : ∃ after t, ipcSend layout id fuel boxes w channel source message.length =
      some (message.length, after, t))
    (aligned : 8 ∣ tidOut) (placed : tidOut ≠ 0) :
    ¬ ∀ after t, ipcSend layout id fuel boxes w channel source message.length =
        some (message.length, after, t) →
      Gets receiver other fuel after u channel buf capacity tidOut message := by
  intro works
  obtain ⟨after, t, accepted⟩ := sent
  obtain ⟨later, v, received, -⟩ := works after t accepted
  rw [ipcRecv_refused aligned placed] at received
  simp only [Option.some.injEq, Prod.mk.injEq] at received
  omega

/-- One byte from the page at `0x400000` is sent on channel 0. -/
theorem byte_sent :
    ∃ s after t, Transition.run Mmu.step (booted (PageAlloc.init sixteenPages (fun _ => 0) true))
        [.create (some 1), .fault sampleLayout 1 0x400000 0x04] = some s ∧
      ipcSend sampleLayout 1 3 quiet s.world 0 0x400000 1 = some (1, after, t) ∧
      (after 0).message = some [0] := by
  obtain ⟨s, ran, ⟨_, after, t⟩, result, rfl, held⟩ : ∃ s, Transition.run Mmu.step
      (booted (PageAlloc.init sixteenPages (fun _ => 0) true))
      [.create (some 1), .fault sampleLayout 1 0x400000 0x04] = some s ∧
      ∃ result, ipcSend sampleLayout 1 3 quiet s.world 0 0x400000 1 = some result ∧
        result.1 = 1 ∧ (result.2.1 0).message = some [0] := by
    decide +kernel
  exact ⟨s, after, t, ran, result, held⟩

/-- The receiver shares the address space; its stack is at the top of the user addresses. -/
theorem ipcRecv_never_byte :
    ∃ s, Transition.run Mmu.step (booted (PageAlloc.init sixteenPages (fun _ => 0) true))
        [.create (some 1), .fault sampleLayout 1 0x400000 0x04] = some s ∧
      ∀ u, ¬ ∀ after t, ipcSend sampleLayout 1 3 quiet s.world 0 0x400000 1 = some (1, after, t) →
        Gets sampleLayout 1 3 after u 0 0x400001 64 0x7fffff00 [0] := by
  obtain ⟨s, after, t, ran, result, -⟩ := byte_sent
  refine ⟨s, ran, fun u => ?_⟩
  exact @ipcRecv_never sampleLayout sampleLayout 1 1 3 quiet s.world u 0 0x400000 0x400001 64
    0x7fffff00 [0] (by decide) ⟨after, t, result⟩ (by decide) (by decide)

/-- The byte is sent, the receive returns -1, and the byte is still there. -/
theorem ipcRecv_stuck :
    ∃ s after t, Transition.run Mmu.step (booted (PageAlloc.init sixteenPages (fun _ => 0) true))
        [.create (some 1), .fault sampleLayout 1 0x400000 0x04] = some s ∧
      ipcSend sampleLayout 1 3 quiet s.world 0 0x400000 1 = some (1, after, t) ∧
      ipcRecv sampleLayout 1 3 after t 0 0x400001 64 0x7fffff00 = some (some (2 ^ 64 - 1), after, t) ∧
      (after 0).message = some [0] := by
  obtain ⟨s, after, t, ran, result, held⟩ := byte_sent
  exact ⟨s, after, t, ran, result, ipcRecv_refused (by decide) (by decide), held⟩

end Libc

end OsArmv8a.IpcCalls
