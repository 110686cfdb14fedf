import VeilNetwork.OnionStream.Stored

/-!
# Reassembly refines a byte map

What reassembly is for, without sequence numbers, maps or buffers: a partial map
from offsets to bytes in which the first byte received for an offset stays. The
machine `ByteMap` has that map, how far it is known without a gap, how many bytes
have been handed out, and in how many pieces the rest is held; a segment adds the
bytes it carries inside the buffer where none is known, and only when the pieces
have reached their cap may it be cut short.

`RxTrace.reassembly_refines_byteMap` is the refinement: along every run of segments
and reads, from any first sequence number, the receiving half represents a state of
this machine that the same run reaches.
-/

namespace VeilNetwork.OnionStream

open RxState Blocks List UInt32

/-! ### The abstract machine -/

/-- The received bytes by offset. -/
structure ByteMap where
  /-- The byte first received at an offset. -/
  map : ℕ → Option UInt8
  /-- The first offset not received. -/
  next : ℕ
  /-- The bytes handed out. -/
  taken : ℕ
  /-- The number of pieces the bytes beyond `next` are held in. -/
  pieces : ℕ

/-- A call on the receiving half. -/
inductive RxOp where
  | accept (seq : UInt32) (payload : List UInt8)
  | read (len : ℕ)

/-- A segment carries at least one byte; `on_data` drops the others. -/
def RxOp.Carries : RxOp → Prop
  | accept _ payload => payload ≠ []
  | read _ => True

namespace ByteMap

/-- Nothing received. -/
def empty : ByteMap := ⟨fun _ => none, 0, 0, 0⟩

/-- A segment starting `d` bytes from the first missing one. -/
structure Accepts (window : ℕ) (b : ByteMap) (d : ℤ) (payload : List UInt8) (b' : ByteMap) :
    Prop where
  bytes : ∃ cut,
    (∀ i, b'.map i = (b.map i).or
      (if b.next ≤ i ∧ i < cut ∧ i < b.taken + window then carried b.next d payload i else none)) ∧
    (b.taken + window ≤ cut ∨ 0 < d ∧ b'.pieces = maxReorderedSegments)
  next_le : b.next ≤ b'.next
  taken_eq : b'.taken = b.taken

/-- One call. The offset of a segment is its signed distance from the first missing
byte, whose sequence number is `first + next`. -/
def Step (first : UInt32) (window : ℕ) (b : ByteMap) : RxOp → ByteMap → Prop
  | .accept seq payload, b' =>
    b.Accepts window (seq - (first + UInt32.ofNat b.next)).toInt32.toInt payload b'
  | .read len, b' => b' = { b with taken := min (b.taken + len) b.next }

/-- A sequence of calls. -/
inductive Run (first : UInt32) (window : ℕ) : ByteMap → List RxOp → ByteMap → Prop
  | nil (b : ByteMap) : Run first window b [] b
  | cons {b b' b'' : ByteMap} {op : RxOp} {ops : List RxOp} (h : b.Step first window op b')
      (hs : Run first window b' ops b'') : Run first window b (op :: ops) b''

variable {first : UInt32} {window : ℕ} {b b' : ByteMap} {op : RxOp} {ops : List RxOp}

/-- One call keeps what is known. -/
theorem Step.keeps (h : b.Step first window op b') {i : ℕ} {x : UInt8} (hx : b.map i = some x) :
    b'.map i = some x := by
  cases op with
  | accept seq payload =>
    obtain ⟨cut, hmap, -⟩ := h.bytes
    rw [hmap, hx, Option.some_or]
  | read len =>
    rwa [show b' = _ from h]

/-- **What is known stays known**, along every run. -/
theorem Run.keeps (h : Run first window b ops b') {i : ℕ} {x : UInt8} (hx : b.map i = some x) :
    b'.map i = some x := by
  induction h with
  | nil b => exact hx
  | cons h _ ih => exact ih (h.keeps hx)

end ByteMap

/-! ### Runs of the receiving half -/

/-- A receiving half with the bytes read from it. -/
structure RxTrace where
  rx : RxState
  taken : List UInt8

namespace RxTrace

/-- A receiving half that expects `first` and has not seen anything. -/
def start (first window : UInt32) : RxTrace where
  rx :=
    { rcvNxt := first, window := window, lastAckWindow := window, readBuf := [],
      oo := OrdMap.empty, ooBytes := 0, peerFinSeq := none, eof := false }
  taken := []

/-- One call. -/
def step (s : RxTrace) : RxOp → RxTrace
  | .accept seq payload => { s with rx := (s.rx.accept seq payload).1 }
  | .read len => ⟨(s.rx.takeRead len).1, s.taken ++ (s.rx.takeRead len).2⟩

/-- A sequence of calls. -/
def run (s : RxTrace) (ops : List RxOp) : RxTrace := ops.foldl step s

/-- The receiving half represents the byte map: what was read and what waits in the
read buffer is the prefix of the map up to the first missing byte; the map beyond it
is held in blocks that are not empty, do not overlap and start past it; the counters
and the edge of the buffer are what the blocks and the reads make them. -/
structure Represents (first window : UInt32) (s : RxTrace) (b : ByteMap) : Prop where
  next_eq : (s.taken ++ s.rx.readBuf).length = b.next
  prefix_eq : ∀ i, i < b.next → b.map i = (s.taken ++ s.rx.readBuf)[i]?
  missing : b.map b.next = none
  taken_eq : s.taken.length = b.taken
  rcvNxt_eq : s.rx.rcvNxt = first + UInt32.ofNat b.next
  blocks : ∃ B, Spaced (b.next + 1) (b.taken + window.toNat) B ∧
    (B.map fun p => (first + UInt32.ofNat p.1, p.2)).Perm s.rx.oo.entries ∧
    ∀ i, b.next ≤ i → b.map i = lookup B i
  ooBytes_eq : s.rx.ooBytes = (s.rx.oo.values.map List.length).sum
  bytes_le : s.rx.readBuf.length + s.rx.ooBytes ≤ window.toNat
  pieces_eq : s.rx.oo.size = b.pieces
  pieces_le : s.rx.oo.size ≤ maxReorderedSegments
  edge_eq : s.rx.rcvNxt + (window - UInt32.ofNat s.rx.readBuf.length) =
    first + UInt32.ofNat s.taken.length + window

/-! ### The simulation -/

/-- Offsets count from the first sequence number, a full turn up. -/
def base (first : UInt32) : ℕ := first.toNat + 2 ^ 32

theorem pos_base (first : UInt32) (i : ℕ) : pos (base first) i = first + UInt32.ofNat i := by
  have hfirst : ofNat first.toNat = first := by simp
  have hturn : ofNat (2 ^ 32) = 0 := by decide
  rw [pos, base, UInt32.ofNat_add, UInt32.ofNat_add, hfirst, hturn, UInt32.add_zero]

/-- The invariant of a run without a FIN: it holds a prefix and blocks. -/
structure Holds (first window : UInt32) (s : RxTrace) (P : List UInt8)
    (B : List (ℕ × List UInt8)) : Prop where
  stored : Stored (base first) s.taken P B (P.length + 1) s.rx
  size_le : B.length ≤ maxReorderedSegments
  window_eq : s.rx.window = window
  noFin : s.rx.peerFinSeq = none

/-- The byte map of a prefix and blocks. -/
def byteMap (s : RxTrace) (P : List UInt8) (B : List (ℕ × List UInt8)) : ByteMap :=
  ⟨content P B, P.length, s.taken.length, B.length⟩

section Simulation

variable {first window : UInt32} {s : RxTrace} {P : List UInt8} {B : List (ℕ × List UInt8)}

theorem Holds.represents (h : Holds first window s P B) :
    Represents first window s (byteMap s P B) := by
  have hst := h.stored
  have hP := hst.length_eq
  have hw := h.window_eq
  refine ⟨by rw [← hst.prefix_eq]; rfl, fun i hi => ?_, ?_, rfl, ?_, ?_, ?_, ?_, hst.size_eq, ?_,
    ?_⟩
  · rw [← hst.prefix_eq]
    exact content_of_lt hi
  · exact (content_of_ge le_rfl).trans (lookup_eq_none_of_lt hst.spaced (Nat.lt_succ_self _))
  · rw [hst.rcvNxt, pos_base]
    rfl
  · refine ⟨B, ?_, ?_, fun i hi => content_of_ge hi⟩
    · rw [← hw]
      exact hst.spaced
    · have hmap : (fun p : ℕ × List UInt8 => (first + ofNat p.1, p.2)) = place (base first) := by
        funext p
        rw [place, pos_base]
      rw [hmap]
      exact hst.perm
  · have hsum := (hst.perm.map fun e => e.2.length).sum_nat
    rw [hst.ooBytes, OrdMap.values, map_map]
    rw [map_map] at hsum
    exact hsum
  · rw [← hw]
    exact hst.bytes_le (Nat.le_succ _)
  · rw [hst.size_eq]
    exact h.size_le
  · rw [hst.rcvNxt, pos_base, hP, UInt32.ofNat_add, UInt32.add_assoc, UInt32.add_assoc,
      UInt32.add_assoc]
    congr 2
    rw [UInt32.add_comm, UInt32.sub_add_cancel]

theorem holds_start (first window : UInt32) : Holds first window (start first window) [] [] where
  stored :=
    { prefix_eq := rfl
      rcvNxt := by
        rw [pos_base]
        exact (UInt32.add_zero first).symm
      perm := List.Perm.refl _
      spaced := trivial
      ooBytes := rfl
      reach := Nat.zero_le _ }
  size_le := Nat.zero_le _
  window_eq := rfl
  noFin := rfl

/-- Without a FIN there is none to consume. -/
theorem tryConsumeFin_of_noFin {rx : RxState} (h : rx.peerFinSeq = none) :
    rx.tryConsumeFin = rx := by
  rw [tryConsumeFin, h]
  simp

/-- A segment is a step of the byte map. -/
theorem Holds.accept (h : Holds first window s P B) (hw : window.toNat < 2 ^ 31) (seq : UInt32)
    {payload : List UInt8} (hne : payload ≠ []) :
    ∃ P' B', Holds first window (s.step (.accept seq payload)) P' B' ∧
      (byteMap s P B).Step first window.toNat (.accept seq payload)
        (byteMap (s.step (.accept seq payload)) P' B') := by
  have hst := h.stored
  have hrcv : s.rx.rcvNxt = first + ofNat P.length := by rw [hst.rcvNxt, pos_base]
  have hwin : s.rx.window.toNat < 2 ^ 31 := by
    rwa [h.window_eq]
  obtain ⟨P', B', cut, rx', hst', hacc, hsame, hres⟩ :=
    hst.accept (Nat.le_trans (by decide) (Nat.le_add_left (2 ^ 32) _)) hwin h.size_le hne seq
  have hfin : rx'.tryConsumeFin = rx' := by
    refine tryConsumeFin_of_noFin ?_
    rw [hsame.peerFinSeq]
    exact h.noFin
  have hrx : (s.rx.accept seq payload).1 = rx' := by
    rcases hres with ⟨-, hres⟩ | hres
    · exact hres
    · rw [hres, hfin]
  have hstep : s.step (.accept seq payload) = { s with rx := rx' } := by rw [step, hrx]
  rw [hstep]
  refine ⟨P', B', ⟨hst', hacc.size_le, hsame.window.trans h.window_eq,
    hsame.peerFinSeq.trans h.noFin⟩,
    ⟨⟨cut, ?_, ?_⟩, hacc.length_le, rfl⟩⟩
  · intro i
    have := hacc.content_eq i
    rw [h.window_eq, hrcv] at this
    exact this
  · have := hacc.uncut
    rw [h.window_eq, hrcv] at this
    exact this

/-- A read is a step of the byte map. -/
theorem Holds.read (h : Holds first window s P B) (len : ℕ) :
    Holds first window (s.step (.read len)) P B ∧
      (byteMap s P B).Step first window.toNat (.read len) (byteMap (s.step (.read len)) P B) := by
  have hlen : (s.taken ++ s.rx.readBuf.take len).length = min (s.taken.length + len) P.length := by
    rw [h.stored.prefix_eq, length_append, length_append, length_take]
    omega
  refine ⟨⟨h.stored.takeRead len, h.size_le, h.window_eq, h.noFin⟩, ?_⟩
  show (⟨content P B, P.length, (s.taken ++ s.rx.readBuf.take len).length, B.length⟩ : ByteMap) = _
  rw [hlen]
  rfl

/-- A run of segments and reads is a run of the byte map. -/
theorem Holds.run (h : Holds first window s P B) (hw : window.toNat < 2 ^ 31) {ops : List RxOp}
    (hops : ∀ op ∈ ops, op.Carries) :
    ∃ P' B', Holds first window (s.run ops) P' B' ∧
      ByteMap.Run first window.toNat (byteMap s P B) ops (byteMap (s.run ops) P' B') := by
  induction ops generalizing s P B with
  | nil => exact ⟨P, B, h, ByteMap.Run.nil _⟩
  | cons op ops ih =>
    have hrest : ∀ op ∈ ops, op.Carries := fun o ho => hops o (mem_cons_of_mem op ho)
    have hstep : ∃ P' B', Holds first window (s.step op) P' B' ∧
        (byteMap s P B).Step first window.toNat op (byteMap (s.step op) P' B') := by
      cases op with
      | accept seq payload => exact h.accept hw seq (hops _ mem_cons_self)
      | read len => exact ⟨P, B, h.read len⟩
    obtain ⟨P₁, B₁, h₁, hs₁⟩ := hstep
    obtain ⟨P₂, B₂, h₂, hs₂⟩ := ih h₁ hrest
    exact ⟨P₂, B₂, h₂, ByteMap.Run.cons hs₁ hs₂⟩

end Simulation

/-- **Reassembly refines a byte map.** After any calls `ops` the receiving half
represents a state of the byte map that `ops` reaches, after any further calls one
that these reach from there, and no byte of the first has been dropped or overwritten
in the second. -/
theorem reassembly_refines_byteMap (first window : UInt32) (hw : window.toNat < 2 ^ 31)
    (ops ops' : List RxOp) (hops : ∀ op ∈ ops ++ ops', op.Carries) :
    ∃ b b', ByteMap.Run first window.toNat ByteMap.empty ops b ∧
      Represents first window ((start first window).run ops) b ∧
      ByteMap.Run first window.toNat b ops' b' ∧
      Represents first window ((start first window).run (ops ++ ops')) b' ∧
      ∀ i x, b.map i = some x → b'.map i = some x := by
  obtain ⟨P, B, h, hrun⟩ := (holds_start first window).run hw
    fun op hop => hops op (mem_append_left ops' hop)
  obtain ⟨P', B', h', hrun'⟩ := h.run hw fun op hop => hops op (mem_append_right ops hop)
  have happ : (start first window).run (ops ++ ops') = ((start first window).run ops).run ops' :=
    foldl_append
  refine ⟨_, _, ?_, h.represents, hrun', ?_, fun i x hx => hrun'.keeps hx⟩
  · exact hrun
  · rw [happ]
    exact h'.represents

/-- A segment beyond a gap that the sequence numbers wrap in, then the missing bytes. -/
theorem reassembly_refines_byteMap_across_wrap :
    ∃ b b', ByteMap.Run 0xFFFFFFFE 8 ByteMap.empty [.accept 1 [4, 5]] b ∧
      Represents 0xFFFFFFFE 8 ((start 0xFFFFFFFE 8).run [.accept 1 [4, 5]]) b ∧
      ByteMap.Run 0xFFFFFFFE 8 b [.accept 0xFFFFFFFE [1, 2, 3, 9], .read 2] b' ∧
      Represents 0xFFFFFFFE 8 ((start 0xFFFFFFFE 8).run
        ([.accept 1 [4, 5]] ++ [.accept 0xFFFFFFFE [1, 2, 3, 9], .read 2])) b' ∧
      ∀ i x, b.map i = some x → b'.map i = some x := by
  refine reassembly_refines_byteMap 0xFFFFFFFE 8 (by decide) _ _ fun op hop => ?_
  simp only [mem_append, mem_cons, not_mem_nil, or_false] at hop
  rcases hop with rfl | rfl | rfl
  · exact cons_ne_nil _ _
  · exact cons_ne_nil _ _
  · trivial

end RxTrace

end VeilNetwork.OnionStream
