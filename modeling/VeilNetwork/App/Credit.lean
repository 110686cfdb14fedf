import Mathlib.Algebra.BigOperators.Group.List.Basic
import VeilNetwork.App.Node
import VeilNetwork.Lib.Run

/-!
# Receive credit

How the receive window of a stream that a peer has opened moves. Every frame that is
accepted debits it, and a stream starts with the default window; nothing credits it, as
`replenish_recv_window` has no caller. So along every run the window is the initial one
less all that was ever accepted (`Node.Ledger.window`), whether or not the application has
been handed the bytes. It is what the application has consumed that the documentation of
the window takes out of this difference, so the two agree just where nothing has been
consumed.

Only three calls touch the ledger of debits: an open, an accepted data frame, and the
forwarder handing data over. For the others `Node.SameLedger` says that the windows, the
debits and what was handed over are left alone; the calls that are not frames of a peer
leave the whole table alone (`Node.Aside`).
-/

namespace VeilNetwork.App

open List Option Function AppStreamTable

/-- A call is a frame of a peer. -/
def Call.ofPeer {N A C : Type} : Call N A C → Bool
  | .appOpen .. | .appData .. | .appClose .. | .appReceipt .. | .appWindowUpdate .. => true
  | _ => false

namespace Node

variable {N A C : Type} [DecidableEq N]

/-- All that was accepted on a stream since it was opened. -/
def debited (s : Node N A C) (key : N × ℕ) : ℕ :=
  ((s.debits.filter fun d => decide (d.stream = key)).map Debit.bytes).sum

/-- What was accepted on a stream since it was opened and has not been handed over to the
application. -/
def outstanding (s : Node N A C) (key : N × ℕ) : ℕ :=
  ((s.debits.filter fun d => decide (d.stream = key ∧ d.number ∉ s.handed)).map Debit.bytes).sum

/-! ### Calls that leave the ledger alone -/

/-- The receive windows, the debits and what was handed over are left alone, and no message
that stands for a debit is queued. -/
structure SameLedger (s s' : Node N A C) : Prop where
  window : ∀ p k st', s'.streamTable.get p k = some st' →
    ∃ st, s.streamTable.get p k = some st ∧ st'.recvWindow = st.recvWindow
  debits : s'.debits = s.debits
  nextDebit : s'.nextDebit = s.nextDebit
  handed : s'.handed = s.handed
  queued : ∀ e q, q ∈ s'.queues e → q.debit = none ∨ q ∈ s.queues e

/-- The whole table is left alone too. -/
structure Aside (s s' : Node N A C) : Prop extends SameLedger s s' where
  table : s'.streamTable = s.streamTable

variable {s₀ s s' : Node N A C}

theorem SameLedger.trans (h : SameLedger s₀ s) (h' : SameLedger s s') : SameLedger s₀ s' where
  window p k st' hst' := by
    obtain ⟨st, hst, hw⟩ := h'.window p k st' hst'
    obtain ⟨st₀, hst₀, hw₀⟩ := h.window p k st hst
    exact ⟨st₀, hst₀, hw.trans hw₀⟩
  debits := h'.debits.trans h.debits
  nextDebit := h'.nextDebit.trans h.nextDebit
  handed := h'.handed.trans h.handed
  queued e q hq := (h'.queued e q hq).elim .inl (h.queued e q)

/-- A table with the same receive windows, or fewer of them. -/
theorem SameLedger.setTable {table : AppStreamTable N A}
    (hw : ∀ p k st', table.get p k = some st' →
      ∃ st, s.streamTable.get p k = some st ∧ st'.recvWindow = st.recvWindow) :
    SameLedger s (s.setTable table) := ⟨hw, rfl, rfl, rfl, fun _ _ hq => .inr hq⟩

section SendTo

variable {N A C : Type} [DecidableEq A] {host : Host N A C} {s : Node N A C} {e : EndpointKey A}
  {room : Bool}

/-- What a queue holds after a message was routed. -/
theorem mem_queues_sendTo {e' : EndpointKey A} {message q : Queued N}
    (hq : q ∈ (s.sendTo host e message room).queues e') : q = message ∨ q ∈ s.queues e' := by
  rw [sendTo] at hq
  split at hq
  · change q ∈ update s.queues e (s.queues e ++ [message]) e' at hq
    rcases eq_or_ne e' e with rfl | hne
    · rw [update_self] at hq
      rcases mem_append.mp hq with hq | hq
      · exact .inr hq
      · exact .inl (mem_singleton.mp hq)
    · rw [update_of_ne hne] at hq
      exact .inr hq
  · exact .inr hq

theorem books_sendTo (s : Node N A C) (e : EndpointKey A) (message : Queued N) (room : Bool) :
    (s.sendTo host e message room).streamTable = s.streamTable ∧
      (s.sendTo host e message room).debits = s.debits ∧
      (s.sendTo host e message room).nextDebit = s.nextDebit ∧
      (s.sendTo host e message room).handed = s.handed := by
  rw [sendTo]
  split <;> exact ⟨rfl, rfl, rfl, rfl⟩

end SendTo

namespace Aside

theorem of_books (htable : s'.streamTable = s.streamTable) (hdebits : s'.debits = s.debits)
    (hnext : s'.nextDebit = s.nextDebit) (hhanded : s'.handed = s.handed)
    (hqueued : ∀ e q, q ∈ s'.queues e → q.debit = none ∨ q ∈ s.queues e) : Aside s s' :=
  ⟨⟨fun _ _ st' hst' => ⟨st', htable ▸ hst', rfl⟩, hdebits, hnext, hhanded, hqueued⟩, htable⟩

theorem refl (s : Node N A C) : Aside s s := .of_books rfl rfl rfl rfl fun _ _ h => .inr h

theorem trans (h : Aside s₀ s) (h' : Aside s s') : Aside s₀ s' :=
  ⟨h.toSameLedger.trans h'.toSameLedger, h'.table.trans h.table⟩

/-- Changing what is not in the books. -/
theorem congr (h : Aside s₀ s) (htable : s'.streamTable = s.streamTable)
    (hdebits : s'.debits = s.debits) (hnext : s'.nextDebit = s.nextDebit)
    (hhanded : s'.handed = s.handed) (hqueues : s'.queues = s.queues) : Aside s₀ s' :=
  h.trans (.of_books htable hdebits hnext hhanded fun _ _ hq => .inr (hqueues ▸ hq))

section Small

variable (h : Aside s₀ s)
include h

theorem setLocals (locals : Table ℕ (LocalStream N A C)) : Aside s₀ (s.setLocals locals) :=
  h.congr rfl rfl rfl rfl rfl

theorem setLocal (n : ℕ) (l : LocalStream N A C) : Aside s₀ (s.setLocal n l) :=
  h.setLocals _

theorem setIpc (ipc : IpcStreamTable N A C) : Aside s₀ (s.setIpc ipc) :=
  h.congr rfl rfl rfl rfl rfl

theorem setCounter (counter : ℕ) : Aside s₀ (s.setCounter counter) :=
  h.congr rfl rfl rfl rfl rfl

theorem addLocal (l : LocalStream N A C) : Aside s₀ (s.addLocal l) :=
  h.congr rfl rfl rfl rfl rfl

variable (key : N × ℕ)

theorem dropReceipt : Aside s₀ (s.dropReceipt key) :=
  h.congr rfl rfl rfl rfl rfl

theorem dropRx : Aside s₀ (s.dropRx key) := by
  rw [Node.dropRx]
  split
  · exact h
  · exact h.congr rfl rfl rfl rfl rfl

theorem deregister : Aside s₀ (s.deregister key) :=
  (h.dropReceipt key).dropRx key

theorem register (opener : Opener C) (dst : N) (w : ℕ) (e : EndpointKey A) :
    Aside s₀ (s.register opener dst w e) :=
  (h.dropRx (dst, w)).addLocal _

theorem appReceipt (p : N) (k : ℕ) (accepted : Bool) : Aside s₀ (s.appReceipt p k accepted) := by
  rw [Node.appReceipt]
  split
  · exact h
  · exact (h.dropReceipt (p, k)).setLocals _

theorem closeRemote (i : ℕ) : Aside s₀ (s.closeRemote i) := by
  rw [Node.closeRemote]
  split
  · exact (h.setIpc _).dropRx _
  · exact h

variable [DecidableEq C]

theorem setClient (c : C) (f : IpcClientState N A → IpcClientState N A) :
    Aside s₀ (s.setClient c f) :=
  h.congr rfl rfl rfl rfl rfl

theorem releaseStream (c : C) (i : ℕ) : Aside s₀ (s.releaseStream c i) := h.setClient c _

theorem deliver (c : C) (event : IpcEvent N A) (room : Bool) :
    Aside s₀ (s.deliver c event room) := by
  rw [Node.deliver]
  split
  · exact h.setClient c _
  · exact h

theorem claimOpener (c : C) (j : ℕ) : Aside s₀ (s.claimOpener c j) :=
  (h.setClient c _).deliver c _ _

theorem endBridge (n : ℕ) (l : LocalStream N A C) (c : C) (j : ℕ) (room : Bool) :
    Aside s₀ (s.endBridge n l c j room) := by
  have hover := (h.dropRx (l.dst, l.wireId)).setLocal n
    { l with phase := .over, queue := [], senderDropped := true }
  rw [Node.endBridge]
  dsimp only
  split
  · exact hover
  · exact (hover.setIpc _).deliver c _ room

variable [DecidableEq A] (host : Host N A C)

omit [DecidableEq C] in
/-- Queueing a message that stands for no debit. -/
theorem sendTo (e : EndpointKey A) {message : Queued N} (hm : message.debit = none)
    (room : Bool) : Aside s₀ (s.sendTo host e message room) := by
  obtain ⟨htable, hdebits, hnext, hhanded⟩ := books_sendTo s e message room
  refine h.trans (.of_books htable hdebits hnext hhanded fun e' q hq => ?_)
  exact (mem_queues_sendTo hq).imp_left fun (heq : q = message) => heq ▸ hm

theorem closePair (i : ℕ) (roomA roomB : Bool) : Aside s₀ (s.closePair host i roomA roomB) := by
  rw [Node.closePair]
  split
  · exact h
  · exact ((h.setIpc _).sendTo host _ rfl roomB).deliver _ _ roomA

end Small

/-! ### Each call -/

section Calls

variable (host : Host N A C) (s)

variable (c : C)

theorem openRemote (dst : N) (e : EndpointKey A) (sent : Bool) :
    Aside s (s.openRemote c dst e sent) := by
  rw [Node.openRemote]
  split
  · exact (refl s).setCounter _
  · split
    · exact ((refl s).setCounter _).register _ _ _ _
    · exact (refl s).setCounter _

theorem connect (dst : N) : Aside s (s.connect host dst) :=
  ((refl s).setCounter _).register _ _ _ _

theorem streamWindow (i increment : ℕ) : Aside s (s.streamWindow c i increment) := by
  rw [Node.streamWindow]
  split
  · exact (refl s).setIpc _
  · exact refl s

variable [DecidableEq C]

theorem proxyClose (h : ℕ) : Aside s (s.proxyClose h) := by
  rw [Node.proxyClose]
  split
  · exact refl s
  · split
    · exact ((refl s).dropRx _).setLocal _ _
    · exact refl s

theorem proxyWrite (h : ℕ) (sent : Bool) : Aside s (s.proxyWrite h sent) := by
  rw [Node.proxyWrite]
  split
  · exact refl s
  · exact proxyClose s h

theorem openResult (h : ℕ) (expired : Bool) : Aside s (s.openResult h expired) := by
  rw [Node.openResult]
  split
  · exact refl s
  next l _ =>
    split
    · split
      · split
        · exact (refl s).setLocal _ _
        · split
          · exact ((refl s).deregister _).setLocal _ _
          · exact (((refl s).setIpc _).setLocal _ _).claimOpener _ _
      · exact ((refl s).deregister _).setLocal _ _
    · exact refl s

theorem pump (h : ℕ) (room : Bool) : Aside s (s.pump h room) := by
  rw [Node.pump]
  split
  · exact refl s
  · split
    · split
      · exact ((refl s).setLocal _ _).deliver _ _ _
      · exact (refl s).endBridge _ _ _ _ _
    · split
      · exact (refl s).endBridge _ _ _ _ _
      · exact refl s
    · exact (refl s).setLocal _ _
    · exact refl s

variable [DecidableEq A]

theorem openLocal (e : EndpointKey A) (window : ℕ) (room : Bool) :
    Aside s (s.openLocal host c e window room) := by
  rw [Node.openLocal]
  split
  · split
    · exact (((refl s).sendTo host e rfl room).setIpc _).claimOpener c _
    · exact (refl s).setIpc _
  · exact refl s

variable (i : ℕ) (data : List UInt8)

theorem routeDataFromA (room roomA roomB : Bool) :
    Aside s (s.routeDataFromA host c i data room roomA roomB) := by
  rw [Node.routeDataFromA]
  split
  · exact refl s
  · split
    · exact ((refl s).closePair host i roomA roomB).releaseStream c i
    · exact ((refl s).setIpc _).sendTo host _ rfl room

theorem routeDataFromB (room roomA roomB : Bool) :
    Aside s (s.routeDataFromB host c i data room roomA roomB) := by
  rw [Node.routeDataFromB]
  split
  · exact refl s
  · split
    · exact (refl s).deliver _ _ _
    · exact ((refl s).closePair host i roomA roomB).releaseStream c i

theorem streamData (sent room roomA roomB : Bool) :
    Aside s (s.streamData host c i data sent room roomA roomB) := by
  rw [Node.streamData]
  split
  · split
    · split
      · exact refl s
      · exact ((refl s).dropRx _).releaseStream c i
    · exact routeDataFromA s host c i data room roomA roomB
  · split
    · split
      · split
        · exact refl s
        · exact (((refl s).closePair host i roomA roomB).releaseStream c i).deliver c _ _
      · exact routeDataFromB s host c i data room roomA roomB
    · exact refl s

theorem streamClose (roomA roomB : Bool) : Aside s (s.streamClose host c i roomA roomB) := by
  rw [Node.streamClose]
  split
  · exact (((refl s).closeRemote i).closePair host i roomA roomB).releaseStream c i
  · exact refl s

end Calls

end Aside

namespace SameLedger

variable (host : Host N A C) (s)

theorem appWindowUpdate (p : N) (k increment : ℕ) :
    SameLedger s (s.appWindowUpdate p k increment) := by
  refine setTable fun p' k' st' hst' => ?_
  rw [AppStreamTable.get, AppStreamTable.applyWindowUpdate, Table.lookup_modify] at hst'
  split at hst'
  next heq =>
    obtain ⟨st, hst, rfl⟩ := map_eq_some_iff.mp hst'
    exact ⟨st, by rw [AppStreamTable.get, heq]; exact hst, rfl⟩
  · exact ⟨st', hst', rfl⟩

theorem appClose [DecidableEq A] (p : N) (k : ℕ) (e : EndpointKey A) (room : Bool) :
    SameLedger s (s.appClose host p k e room).2 := by
  have hsent : Aside s (s.sendTo host e ⟨.streamClose k, none⟩ room) :=
    (Aside.refl s).sendTo host e rfl room
  refine hsent.toSameLedger.trans ((setTable fun p' k' st' hst' => ?_).trans
    ((Aside.refl _).dropRx (p, k)).toSameLedger)
  rw [get_close] at hst'
  split at hst'
  · cases hst'
  · exact ⟨st', hst', rfl⟩

end SameLedger

/-! ### The ledger along a run -/

variable {s s' : Node N A C}

/-- **The receive window of an open stream is the initial one less all that was accepted on
it**, and the numbers of debits are used once. -/
structure Ledger (s : Node N A C) : Prop where
  window : ∀ p k st, s.streamTable.get p k = some st →
    st.recvWindow + s.debited (p, k) = appStreamInitialWindow
  handed : ∀ n ∈ s.handed, n < s.nextDebit
  queued : ∀ e, ∀ q ∈ s.queues e, ∀ n ∈ q.debit, n < s.nextDebit

theorem SameLedger.debited (hs : SameLedger s s') (key : N × ℕ) :
    s'.debited key = s.debited key := by
  rw [Node.debited, Node.debited, hs.debits]

theorem Ledger.same (h : Ledger s) (hs : SameLedger s s') : Ledger s' where
  window p k st' hst' := by
    obtain ⟨st, hst, hw⟩ := hs.window p k st' hst'
    rw [hw, hs.debited]
    exact h.window p k st hst
  handed n hn := by
    rw [hs.nextDebit]
    exact h.handed n (hs.handed ▸ hn)
  queued e q hq n hn := by
    rw [hs.nextDebit]
    rcases hs.queued e q hq with hnone | hq
    · rw [hnone] at hn
      cases hn
    · exact h.queued e q hq n hn

theorem ledger_new : Ledger (new : Node N A C) where
  window p k st h := by
    rw [AppStreamTable.get] at h
    exact absurd h (by rw [new, AppStreamTable.new]; simp)
  handed _ h := absurd h not_mem_nil
  queued _ _ h := absurd h not_mem_nil

section

variable [DecidableEq A] {host : Host N A C} {e : EndpointKey A} {room : Bool}

/-- Routing a message whose debit is on record. -/
theorem Ledger.sendTo (h : Ledger s) {message : Queued N}
    (hm : ∀ n ∈ message.debit, n < s.nextDebit) : Ledger (s.sendTo host e message room) := by
  obtain ⟨htable, hdebits, hnext, hhanded⟩ := books_sendTo s e message room
  refine ⟨fun p k st hst => ?_, fun n hn => ?_, fun e' q hq n hn => ?_⟩
  · rw [debited, hdebits]
    exact h.window p k st (htable ▸ hst)
  · rw [hnext]
    exact h.handed n (hhanded ▸ hn)
  · rw [hnext]
    rcases mem_queues_sendTo hq with rfl | hq
    · exact hm n hn
    · exact h.queued e' q hq n hn

/-- A stream starts with the initial window and no debits. -/
theorem Ledger.appOpen (h : Ledger s) (p : N) (k : ℕ) (e : EndpointKey A) (room : Bool) :
    Ledger (s.appOpen host p k e room).2 := by
  rw [Node.appOpen]
  split
  next table hopen =>
    obtain ⟨-, hstreams⟩ := openStream_opened hopen
    refine .sendTo ?_ fun n hn => absurd hn (not_mem_none n)
    refine ⟨fun p' k' st hst => ?_, h.handed, h.queued⟩
    change get table p' k' = some st at hst
    have hkeep (key : N × ℕ) : debited ((s.setTable table).forgetDebits (p, k)) key =
        if key = (p, k) then 0 else s.debited key := by
      change (((s.debits.filter _).filter _).map Debit.bytes).sum = _
      rw [List.filter_filter]
      split_ifs with heq
      · rw [filter_eq_nil_iff.mpr fun d _ => by simp [heq]]
        rfl
      · refine congrArg (fun l => (map Debit.bytes l).sum) (filter_congr fun d _ => ?_)
        rcases eq_or_ne d.stream key with hd | hd <;> simp [hd, heq]
    rw [hkeep]
    rw [AppStreamTable.get, hstreams] at hst
    rcases Table.lookup_insert_eq_some hst with ⟨heq, rfl⟩ | ⟨hne, hold⟩
    · rw [if_pos heq]
      rfl
    · rw [if_neg hne]
      exact h.window p' k' st hold
  · exact h

end

variable [DecidableEq A] [DecidableEq C] {host : Host N A C} {e : EndpointKey A} {room : Bool}

/-- An accepted frame is debited. -/
theorem Ledger.appData (h : Ledger s) (p : N) (k : ℕ) (e : EndpointKey A) (data : List UInt8)
    (room : Bool) : Ledger (s.appData host p k e data room).2 := by
  rw [Node.appData]
  split
  · split
    · split
      · exact h.same ((Aside.refl s).setLocal _ _).toSameLedger
      · exact h.same ((Aside.refl s).dropRx _).toSameLedger
    · exact h.same ((Aside.refl s).dropRx _).toSameLedger
  · rcases s.streamTable.receiveData_cases p k data.length with
      ⟨-, heq⟩ | ⟨st₀, hst₀, ⟨-, heq⟩ | ⟨hle, heq⟩⟩
    · rwa [heq]
    · rwa [heq]
    · rw [heq]
      have hdebited (key : N × ℕ) : debited ((s.setTable { s.streamTable with
          streams := s.streamTable.streams.insert (p, k)
            ⟨st₀.endpoint, st₀.sendWindow, st₀.recvWindow - data.length⟩ }).noteDebit (p, k)
          data.length) key =
          (if key = (p, k) then data.length else 0) + s.debited key := by
        change ((filter _ (_ :: s.debits)).map Debit.bytes).sum = _
        rw [filter_cons]
        split_ifs with hkey hne hne
        · rfl
        · exact absurd (of_decide_eq_true hkey).symm hne
        · exact absurd (decide_eq_true hne.symm) hkey
        · rw [zero_add, debited]
      refine .sendTo ?_ fun n hn => ?_
      · refine ⟨fun p' k' st hst => ?_, fun n hn => ?_, fun e' q hq n hn => ?_⟩
        · rw [hdebited]
          rcases Table.lookup_insert_eq_some hst with ⟨hkey, rfl⟩ | ⟨hne, hold⟩
          · have := h.window p k st₀ hst₀
            rw [if_pos hkey, hkey]
            dsimp only
            omega
          · rw [if_neg hne, zero_add]
            exact h.window p' k' st hold
        · exact (h.handed n hn).trans (Nat.lt_succ_self _)
        · exact (h.queued e' q hq n hn).trans (Nat.lt_succ_self _)
      · obtain rfl := some.inj (mem_def.mp hn)
        exact Nat.lt_succ_self _

/-- Handing data over leaves the windows as they are. -/
theorem Ledger.forward (h : Ledger s) (e : EndpointKey A) (room : Bool) :
    Ledger (s.forward host e room) := by
  rw [Node.forward]
  split
  next c q rest hbind hq =>
    have hmem (e' : EndpointKey A) (q' : Queued N)
        (hq' : q' ∈ (s.setQueue e rest).queues e') : q' ∈ s.queues e' := by
      change q' ∈ update s.queues e rest e' at hq'
      rcases eq_or_ne e' e with rfl | hne
      · rw [update_self] at hq'
        exact hq ▸ mem_cons_of_mem _ hq'
      · rwa [update_of_ne hne] at hq'
    have hpop : Aside s (s.setQueue e rest) :=
      .of_books rfl rfl rfl rfl fun e' q' hq' => .inr (hmem e' q' hq')
    split
    · exact h.same ((hpop.setClient c _).deliver c _ room).toSameLedger
    · refine Ledger.same ?_ ((Aside.refl _).deliver c _ room).toSameLedger
      split
      · have hpopped := h.same hpop.toSameLedger
        refine ⟨hpopped.window, fun n hn => ?_, hpopped.queued⟩
        rcases mem_append.mp hn with hn | hn
        · exact h.queued e q (hq ▸ mem_cons_self) n (mem_toList.mp hn)
        · exact hpopped.handed n hn
      · exact h.same hpop.toSameLedger
    · exact h.same ((hpop.setClient c _).deliver c _ room).toSameLedger
  · exact h

/-- **Calls that are not frames of a peer leave the books alone**, the forwarder's apart. -/
theorem aside_step (host : Host N A C) (s : Node N A C) {call : Call N A C}
    (hpeer : call.ofPeer = false) (hforward : ∀ e room, call ≠ .forward e room) :
    Aside s (s.step host call) := by
  cases call with
  | appOpen | appData | appClose | appReceipt | appWindowUpdate => cases hpeer
  | forward e room => exact absurd rfl (hforward e room)
  | openRemote => exact .openRemote s ..
  | connect => exact .connect s host ..
  | openResult => exact .openResult s ..
  | pump => exact .pump s ..
  | proxyWrite => exact .proxyWrite s ..
  | proxyClose => exact .proxyClose s ..
  | openLocal => exact .openLocal s host ..
  | streamData c i data sent room roomA roomB =>
    exact .streamData s host c i data sent room roomA roomB
  | streamClose => exact .streamClose s host ..
  | streamWindow => exact .streamWindow s ..

/-- **Only an open, a data frame and the forwarder touch the ledger.** -/
theorem sameLedger_or (host : Host N A C) (s : Node N A C) (call : Call N A C) :
    SameLedger s (s.step host call) ∨ (∃ p k e room, call = .appOpen p k e room) ∨
      (∃ p k e data room, call = .appData p k e data room) ∨
      ∃ e room, call = .forward e room := by
  cases call with
  | appOpen p k e room => exact .inr (.inl ⟨p, k, e, room, rfl⟩)
  | appData p k e data room => exact .inr (.inr (.inl ⟨p, k, e, data, room, rfl⟩))
  | forward e room => exact .inr (.inr (.inr ⟨e, room, rfl⟩))
  | appClose p k e room => exact .inl (.appClose s host p k e room)
  | appReceipt p k accepted => exact .inl ((Aside.refl s).appReceipt p k accepted).toSameLedger
  | appWindowUpdate p k increment => exact .inl (.appWindowUpdate s p k increment)
  | _ => exact .inl (aside_step host s rfl (fun _ _ h => by cases h)).toSameLedger

theorem Ledger.step (h : Ledger s) (call : Call N A C) : Ledger (s.step host call) := by
  rcases sameLedger_or host s call with hsame | ⟨p, k, e, room, rfl⟩ |
    ⟨p, k, e, data, room, rfl⟩ | ⟨e, room, rfl⟩
  · exact h.same hsame
  · exact h.appOpen p k e room
  · exact h.appData p k e data room
  · exact h.forward e room

/-! ### What has been consumed -/

/-- The call hands bytes of a stream over to the application. -/
def HandsOver (host : Host N A C) (s : Node N A C) (key : N × ℕ) : Call N A C → Prop
  | .forward e room => room = true ∧ (host.binding e).isSome ∧ ∃ q rest, s.queues e = q :: rest ∧
      ∃ d ∈ s.debits, q.debit = some d.number ∧ d.stream = key ∧ 0 < d.bytes
  | _ => False

/-- Nothing of a stream was handed over. -/
def Unconsumed (s : Node N A C) (key : N × ℕ) : Prop :=
  ∀ d ∈ s.debits, d.stream = key → d.number ∈ s.handed → d.bytes = 0

variable {key : N × ℕ}

section

variable (h : s.Unconsumed key)

include h

omit [DecidableEq A] [DecidableEq C] in
theorem Unconsumed.same (hs : SameLedger s s') : s'.Unconsumed key := by
  intro d hd hkey hn
  exact h d (hs.debits ▸ hd) hkey (hs.handed ▸ hn)

omit [DecidableEq A] [DecidableEq C] in
/-- As long as nothing was handed over, all that was accepted is outstanding. -/
theorem Unconsumed.outstanding : s.outstanding key = s.debited key := by
  rw [Node.outstanding, Node.debited]
  rw [Unconsumed] at h
  generalize s.debits = l at h
  induction l with
  | nil => rfl
  | cons d l ih =>
    have ih := ih fun d' hd' => h d' (mem_cons_of_mem _ hd')
    by_cases hkey : d.stream = key
    · by_cases hn : d.number ∈ s.handed
      · have hzero := h d mem_cons_self hkey hn
        rw [filter_cons_of_neg (by simp [hn]), filter_cons_of_pos (by simp [hkey]),
          map_cons, sum_cons, hzero, zero_add, ih]
      · rw [filter_cons_of_pos (by simp [hkey, hn]),
          filter_cons_of_pos (by simp [hkey]), map_cons, map_cons, sum_cons,
          sum_cons, ih]
    · rw [filter_cons_of_neg (by simp [hkey]), filter_cons_of_neg (by simp [hkey]), ih]

omit [DecidableEq C] in
theorem Unconsumed.appOpen (p : N) (k : ℕ) (e : EndpointKey A) (room : Bool) :
    (s.appOpen host p k e room).2.Unconsumed key := by
  rw [Node.appOpen]
  split
  · intro d hd hkey hn
    rw [(books_sendTo _ _ _ _).2.1] at hd
    rw [(books_sendTo _ _ _ _).2.2.2] at hn
    exact h d (mem_filter.mp hd).1 hkey hn
  · exact h

/-- The number of a new debit is not one that was handed over. -/
theorem Unconsumed.appData (hl : Ledger s) (p : N) (k : ℕ) (e : EndpointKey A)
    (data : List UInt8) (room : Bool) : (s.appData host p k e data room).2.Unconsumed key := by
  rw [Node.appData]
  split
  · split
    · split
      · exact h.same ((Aside.refl s).setLocal _ _).toSameLedger
      · exact h.same ((Aside.refl s).dropRx _).toSameLedger
    · exact h.same ((Aside.refl s).dropRx _).toSameLedger
  · split
    · exact h
    · exact h
    · intro d hd hkey hn
      rw [(books_sendTo _ _ _ _).2.1] at hd
      rw [(books_sendTo _ _ _ _).2.2.2] at hn
      rcases mem_cons.mp hd with rfl | hd
      · exact absurd (hl.handed _ hn) (lt_irrefl _)
      · exact h d hd hkey hn

theorem Unconsumed.forward (e : EndpointKey A) (room : Bool)
    (hno : ¬s.HandsOver host key (.forward e room)) : (s.forward host e room).Unconsumed key := by
  rw [Node.forward]
  split
  next c q rest hbind hq =>
    have hpop : (s.setQueue e rest).Unconsumed key := h
    split
    · exact hpop.same (((Aside.refl _).setClient c _).deliver c _ room).toSameLedger
    · refine Unconsumed.same ?_ ((Aside.refl _).deliver c _ room).toSameLedger
      split
      next hroom =>
        intro d hd hkey hn
        rcases mem_append.mp hn with hn | hn
        · by_contra hpos
          exact hno ⟨hroom, by rw [hbind]; rfl, q, rest, hq, d, hd, mem_toList.mp hn, hkey,
            Nat.pos_of_ne_zero hpos⟩
        · exact h d hd hkey hn
      · exact hpop
    · exact hpop.same (((Aside.refl _).setClient c _).deliver c _ room).toSameLedger
  · exact h

theorem Unconsumed.step (hl : Ledger s) {call : Call N A C} (hno : ¬s.HandsOver host key call) :
    (s.step host call).Unconsumed key := by
  rcases sameLedger_or host s call with hsame | ⟨p, k, e, room, rfl⟩ |
    ⟨p, k, e, data, room, rfl⟩ | ⟨e, room, rfl⟩
  · exact h.same hsame
  · exact h.appOpen p k e room
  · exact h.appData hl p k e data room
  · exact h.forward e room hno

end

/-- A frame is a violation only where its stream's window does not cover it. -/
theorem window_lt_of_violation {p : N} {k : ℕ} {data : List UInt8} {reason : String}
    (h : (s.appData host p k e data room).1 = .violation reason) :
    ∃ st, s.streamTable.get p k = some st ∧ st.recvWindow < data.length := by
  rw [Node.appData] at h
  split at h
  · split at h
    · split at h <;> cases h
    · cases h
  · rcases s.streamTable.receiveData_cases p k data.length with
      ⟨-, heq⟩ | ⟨st, hst, ⟨hlt, -⟩ | ⟨-, heq⟩⟩
    · rw [heq] at h
      cases h
    · exact ⟨st, hst, hlt⟩
    · rw [heq] at h
      cases h

variable (host) in
/-- What an accepted frame does. -/
theorem appData_of_le {p : N} {k : ℕ} {st : AppStreamState A} {data : List UInt8}
    (hrx : s.veilStreamRx.lookup (p, k) = none) (hst : s.streamTable.get p k = some st)
    (hle : data.length ≤ st.recvWindow) (e : EndpointKey A) (room : Bool) :
    s.appData host p k e data room = (.noResponse, ((s.setTable { s.streamTable with
      streams := s.streamTable.streams.insert (p, k)
        ⟨st.endpoint, st.sendWindow, st.recvWindow - data.length⟩ }).noteDebit (p, k)
      data.length).sendTo host e ⟨.streamData k data, some s.nextDebit⟩ room) := by
  rw [Node.appData, hrx]
  rcases s.streamTable.receiveData_cases p k data.length with
    ⟨hnone, -⟩ | ⟨st', hst', ⟨hlt, -⟩ | ⟨-, heq⟩⟩
  · cases hst.symm.trans hnone
  · obtain rfl := some.inj (hst.symm.trans hst')
    exact absurd hle (not_le.mpr hlt)
  · obtain rfl := some.inj (hst.symm.trans hst')
    rw [heq]

variable (host) in
/-- **The receive window follows what the application has consumed, as long as it has
consumed nothing**: in every run that hands over nothing of a stream, the window of the
stream is the initial one less what is outstanding, and a frame that keeps what is
outstanding within the initial window is no violation. -/
theorem credit_follows_consumed_until_first (p : N) (k : ℕ) (calls : List (Call N A C))
    (h : Run.Along (step host) (fun s call => ¬s.HandsOver host (p, k) call) new calls) :
    (∀ st, (calls.foldl (step host) new).streamTable.get p k = some st →
      st.recvWindow + (calls.foldl (step host) new).outstanding (p, k) =
        appStreamInitialWindow) ∧
    ∀ e data room reason,
      (calls.foldl (step host) new).outstanding (p, k) + data.length ≤ appStreamInitialWindow →
        ((calls.foldl (step host) new).appData host p k e data room).1 ≠ .violation reason := by
  have hrun : Ledger (calls.foldl (step host) new) ∧
      (calls.foldl (step host) new).Unconsumed (p, k) := by
    refine Run.invariant_along (P := fun s => Ledger s ∧ s.Unconsumed (p, k))
      (fun s call hno hs => ⟨hs.1.step call, hs.2.step hs.1 hno⟩) ⟨ledger_new, ?_⟩ h
    exact nofun
  obtain ⟨hl, hu⟩ := hrun
  have hwindow (st : AppStreamState A)
      (hst : (calls.foldl (step host) new).streamTable.get p k = some st) :
      st.recvWindow + (calls.foldl (step host) new).outstanding (p, k) =
        appStreamInitialWindow := by
    rw [hu.outstanding]
    exact hl.window p k st hst
  refine ⟨hwindow, fun e data room reason hle hviolation => ?_⟩
  obtain ⟨st, hst, hlt⟩ := window_lt_of_violation hviolation
  have := hwindow st hst
  omega

/-! ### A stream that carries more than one window -/

/-- One client has bound the one endpoint. -/
def sampleHost : Host ℕ ℕ Unit := ⟨0, fun e => if e = ⟨7, 1⟩ then some () else none, ⟨238, 0⟩⟩

variable (data : List UInt8)

/-- A peer opens a stream and sends some bytes on it. -/
def sampleCalls : List (Call ℕ ℕ Unit) :=
  [.appOpen 1 4 ⟨7, 1⟩ true, .forward ⟨7, 1⟩ true, .appData 1 4 ⟨7, 1⟩ data true]

theorem credit_follows_consumed_until_first_sample :
    ((sampleCalls [1, 2, 3]).foldl (step sampleHost) new).outstanding (1, 4) = 3 ∧
    ((sampleCalls [1, 2, 3]).foldl (step sampleHost) new).streamTable.get 1 4 =
      some ⟨⟨7, 1⟩, 262144, 262141⟩ ∧
    (((sampleCalls [1, 2, 3]).foldl (step sampleHost) new).appData sampleHost 1 4 ⟨7, 1⟩
      [4] true).1 ≠ .violation "APP_DATA exceeds receive window" := by
  refine ⟨by decide +kernel, by decide +kernel, ?_⟩
  refine (credit_follows_consumed_until_first sampleHost 1 4 (sampleCalls [1, 2, 3]) ?_).2 ⟨7, 1⟩
    [4] true _ (by decide +kernel)
  refine ⟨fun h => h, fun h => ?_, fun h => h, trivial⟩
  obtain ⟨-, -, q, rest, -, d, hd, -⟩ := h
  cases hd

/-- The application is handed what the peer sent. -/
def consumedCalls : List (Call ℕ ℕ Unit) :=
  sampleCalls data ++ [.forward ⟨7, 1⟩ true]

/-- Bytes that were handed over are still missing from the window. -/
theorem window_of_consumed (hle : data.length ≤ appStreamInitialWindow) :
    ((consumedCalls data).foldl (step sampleHost) new).outstanding (1, 4) = 0 ∧
    ((consumedCalls data).foldl (step sampleHost) new).veilStreamRx.lookup (1, 4) = none ∧
    ((consumedCalls data).foldl (step sampleHost) new).streamTable.get 1 4 =
      some ⟨⟨7, 1⟩, appStreamInitialWindow, appStreamInitialWindow - data.length⟩ := by
  obtain ⟨s, hs⟩ : ∃ s, s = (new.appOpen sampleHost 1 4 ⟨7, 1⟩ true).2.forward sampleHost ⟨7, 1⟩
    true := ⟨_, rfl⟩
  have hst : s.streamTable.get 1 4 =
      some ⟨⟨7, 1⟩, appStreamInitialWindow, appStreamInitialWindow⟩ := by
    rw [hs]
    decide +kernel
  have hrx : s.veilStreamRx.lookup (1, 4) = none := by
    rw [hs]
    decide +kernel
  have hfold : (consumedCalls data).foldl (step sampleHost) new =
      (s.appData sampleHost 1 4 ⟨7, 1⟩ data true).2.forward sampleHost ⟨7, 1⟩ true := by
    rw [hs]
    rfl
  rw [hfold, appData_of_le sampleHost hrx hst hle, hs]
  exact ⟨rfl, rfl, rfl⟩

/-- **A peer with nothing outstanding is answered with a violation** once its stream has
carried the initial window. -/
theorem violation_with_nothing_outstanding :
    ∃ calls : List (Call ℕ ℕ Unit),
      (calls.foldl (step sampleHost) new).outstanding (1, 4) = 0 ∧
      (calls.foldl (step sampleHost) new).streamTable.get 1 4 =
        some ⟨⟨7, 1⟩, appStreamInitialWindow, 0⟩ ∧
      ((calls.foldl (step sampleHost) new).appData sampleHost 1 4 ⟨7, 1⟩ [0] true).1 =
        .violation "APP_DATA exceeds receive window" := by
  obtain ⟨hout, hrx, hst⟩ := window_of_consumed
    (replicate appStreamInitialWindow 0) length_replicate.le
  rw [length_replicate] at hst
  refine ⟨consumedCalls (replicate appStreamInitialWindow 0), hout, hst, ?_⟩
  rw [appData, hrx]
  rcases receiveData_cases _ 1 4 ([0] : List UInt8).length with
    ⟨hnone, -⟩ | ⟨st, hst', ⟨-, heq⟩ | ⟨hle, -⟩⟩
  · cases hst.symm.trans hnone
  · rw [heq]
  · obtain rfl := some.inj (hst.symm.trans hst')
    cases hle

end Node

end VeilNetwork.App
