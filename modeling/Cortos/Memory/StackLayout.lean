import Mathlib.Data.Set.Lattice
import Mathlib.Order.CompletePartialOrder
import Cortos.Lib.Alignment

/-!
# Carving a stack buffer (`threading_subsystem.cpp:90–115`)

`StackLayout` places the control block of a thread at the top of the buffer it is given, the
thread-local storage below it and leaves the rest to the user's stack. All of it is computed
in unsigned words: `end - sizeof`, `tls_bytes + (align - 1)` and `tls_top - tls_size` can
each wrap, and the two assertions look at the results only.

- `StackLayout.carve`: the constructor, on words of any width.
- `Carved`: what the layout is for, in exact arithmetic; `Carved.disjoint` and
  `Carved.inside`: the three regions do not overlap and lie in the buffer.
- `Exact`: none of the three wraps.
- `carved_iff_exact`: whenever the assertions pass, the layout is right if and only if
  nothing has wrapped.
-/

namespace Cortos.Memory

open Lib

variable {w : Nat}

/-- `std::span<std::byte>`. -/
structure Span (w : Nat) where
  data : BitVec w
  size : BitVec w
  deriving DecidableEq, Repr

namespace Span

/-- `buffer.subspan(offset, count)`. -/
def subspan (s : Span w) (offset count : BitVec w) : Span w := ⟨s.data + offset, count⟩

/-- The addresses of a span. -/
def addresses (s : Span w) : Set Nat :=
  { x | s.data.toNat ≤ x ∧ x < s.data.toNat + s.size.toNat }

end Span

/-- What the constructor knows of the types: the size of `ThreadControlBlock` and the binary
logarithms of its alignment and of that of `max_align_t`. -/
structure Abi (w : Nat) where
  sizeofTcb : BitVec w
  tcbAlign : Nat
  maxAlign : Nat
  max_le_tcb : maxAlign ≤ tcbAlign
  tcb_lt : tcbAlign < w

namespace Abi

variable (abi : Abi w)

/-- `alignof(ThreadControlBlock)`. -/
def alignofTcb : BitVec w := BitVec.twoPow w abi.tcbAlign

/-- `alignof(std::max_align_t)`. -/
def alignofMax : BitVec w := BitVec.twoPow w abi.maxAlign

theorem max_lt : abi.maxAlign < w := Nat.lt_of_le_of_lt abi.max_le_tcb abi.tcb_lt

end Abi

/-- The assertions of the constructor. -/
inductive LayoutPanic where
  | tlsBelowBase
  | stackTooSmall
  deriving DecidableEq, Repr

structure StackLayout (w : Nat) where
  tcb : BitVec w
  tlsRegion : Span w
  userStack : Span w
  deriving DecidableEq, Repr

namespace StackLayout

section Carve

variable (abi : Abi w) (buffer : Span w) (tlsBytes : BitVec w)

/-- `tcb_start`. -/
def tcbStart : BitVec w :=
  alignDown (buffer.data + buffer.size - abi.sizeofTcb) abi.alignofTcb

/-- `tls_size`. -/
def tlsSize : BitVec w := alignUp tlsBytes abi.alignofMax

/-- `tls_base`. -/
def tlsBase : BitVec w := alignDown (tcbStart abi buffer - tlsSize abi tlsBytes) abi.alignofMax

/-- `stack_len`, which is also `tls_offset`. -/
def stackLen : BitVec w := tlsBase abi buffer tlsBytes - buffer.data

/-- The constructor of `StackLayout`. -/
def carve : Except LayoutPanic (StackLayout w) :=
  if tlsBase abi buffer tlsBytes < buffer.data then .error .tlsBelowBase
  else if (stackLen abi buffer tlsBytes).toNat ≤ 64 then .error .stackTooSmall
  else .ok {
    tcb := tcbStart abi buffer
    tlsRegion := buffer.subspan (stackLen abi buffer tlsBytes)
      (tcbStart abi buffer - tlsBase abi buffer tlsBytes)
    userStack := buffer.subspan 0#w (stackLen abi buffer tlsBytes) }

end Carve

/-- What passes the assertions, and the layout it gives. -/
theorem carve_ok {abi : Abi w} {buffer : Span w} {tlsBytes : BitVec w} {l : StackLayout w}
    (h : carve abi buffer tlsBytes = .ok l) :
    (buffer.data.toNat ≤ (tlsBase abi buffer tlsBytes).toNat ∧
      64 < (stackLen abi buffer tlsBytes).toNat) ∧
    l = { tcb := tcbStart abi buffer
          tlsRegion := ⟨tlsBase abi buffer tlsBytes,
            tcbStart abi buffer - tlsBase abi buffer tlsBytes⟩
          userStack := ⟨buffer.data, stackLen abi buffer tlsBytes⟩ } := by
  have hdata : buffer.data + stackLen abi buffer tlsBytes = tlsBase abi buffer tlsBytes := by
    rw [stackLen, BitVec.add_comm, BitVec.sub_add_cancel]
  unfold carve at h
  split_ifs at h with hbase hlen
  cases h
  refine ⟨⟨Nat.le_of_not_lt hbase, Nat.lt_of_not_le hlen⟩, ?_⟩
  rw [Span.subspan, Span.subspan, hdata, BitVec.add_zero]

/-! ## What the layout is for -/

/-- The layout `l` of `buffer`, in exact arithmetic: the control block is aligned and inside
the buffer, the thread-local storage is aligned, ends at the control block and has room for
what was asked, and the user's stack is all that is below it, with more than 64 bytes. -/
structure Carved (abi : Abi w) (buffer : Span w) (tlsBytes : BitVec w) (l : StackLayout w) :
    Prop where
  tcb_aligned : 2 ^ abi.tcbAlign ∣ l.tcb.toNat
  tcb_inside : l.tcb.toNat + abi.sizeofTcb.toNat ≤ buffer.data.toNat + buffer.size.toNat
  tls_end : l.tlsRegion.data.toNat + l.tlsRegion.size.toNat = l.tcb.toNat
  tls_aligned : 2 ^ abi.maxAlign ∣ l.tlsRegion.data.toNat
  tls_size : tlsBytes.toNat ≤ l.tlsRegion.size.toNat
  tls_empty : tlsBytes = 0#w → l.tlsRegion.size = 0#w
  stack_data : l.userStack.data = buffer.data
  stack_end : l.userStack.data.toNat + l.userStack.size.toNat = l.tlsRegion.data.toNat
  stack_size : 64 < l.userStack.size.toNat

/-- The addresses of the control block. -/
def tcbAddresses (abi : Abi w) (l : StackLayout w) : Set Nat :=
  { x | l.tcb.toNat ≤ x ∧ x < l.tcb.toNat + abi.sizeofTcb.toNat }

namespace Carved

variable {abi : Abi w} {buffer : Span w} {tlsBytes : BitVec w} {l : StackLayout w}

theorem disjoint (h : Carved abi buffer tlsBytes l) :
    Disjoint l.userStack.addresses l.tlsRegion.addresses ∧
      Disjoint l.userStack.addresses (l.tcbAddresses abi) ∧
      Disjoint l.tlsRegion.addresses (l.tcbAddresses abi) := by
  have htls := h.tls_end
  have hstack := h.stack_end
  simp only [Set.disjoint_left, Span.addresses, tcbAddresses, Set.mem_ofPred_eq]
  refine ⟨fun x hx hx' => ?_, fun x hx hx' => ?_, fun x hx hx' => ?_⟩
  · omega
  · omega
  · omega

theorem inside (h : Carved abi buffer tlsBytes l) :
    l.userStack.addresses ⊆ buffer.addresses ∧ l.tlsRegion.addresses ⊆ buffer.addresses ∧
      l.tcbAddresses abi ⊆ buffer.addresses := by
  have htcb := h.tcb_inside
  have htls := h.tls_end
  have hstack := h.stack_end
  rw [h.stack_data] at hstack
  simp only [Set.subset_def, Span.addresses, tcbAddresses, Set.mem_ofPred_eq, h.stack_data]
  refine ⟨fun x hx => ?_, fun x hx => ?_, fun x hx => ?_⟩
  · omega
  · omega
  · omega

end Carved

/-! ## The arithmetic of the constructor -/

/-- None of the three computations wraps: the control block fits below the end of the buffer,
rounding up the size of the thread-local storage stays in the word, and the storage fits
below the control block. -/
structure Exact (abi : Abi w) (buffer : Span w) (tlsBytes : BitVec w) : Prop where
  tcb : abi.sizeofTcb.toNat ≤ buffer.data.toNat + buffer.size.toNat
  round : tlsBytes.toNat + (2 ^ abi.maxAlign - 1) < 2 ^ w
  tls : (tlsSize abi tlsBytes).toNat ≤ (tcbStart abi buffer).toNat

section Arithmetic

variable {abi : Abi w} {buffer : Span w} {tlsBytes : BitVec w}

theorem dvd_tcbStart (abi : Abi w) (buffer : Span w) :
    2 ^ abi.tcbAlign ∣ (tcbStart abi buffer).toNat := by
  rw [tcbStart, Abi.alignofTcb, toNat_alignDown _ abi.tcb_lt]
  exact Nat.dvd_mul_left _ _

theorem max_dvd_tcbStart (abi : Abi w) (buffer : Span w) :
    2 ^ abi.maxAlign ∣ (tcbStart abi buffer).toNat :=
  Nat.dvd_trans (Nat.pow_dvd_pow 2 abi.max_le_tcb) (dvd_tcbStart abi buffer)

/-- Below the end of the buffer the control block is placed by exact arithmetic. -/
theorem tcbStart_le (hbuf : buffer.data.toNat + buffer.size.toNat < 2 ^ w)
    (h : abi.sizeofTcb.toNat ≤ buffer.data.toNat + buffer.size.toNat) :
    (tcbStart abi buffer).toNat + abi.sizeofTcb.toNat ≤
      buffer.data.toNat + buffer.size.toNat := by
  have hend : (buffer.data + buffer.size).toNat = buffer.data.toNat + buffer.size.toNat := by
    rw [BitVec.toNat_add, Nat.mod_eq_of_lt hbuf]
  have hsub : (buffer.data + buffer.size - abi.sizeofTcb).toNat =
      buffer.data.toNat + buffer.size.toNat - abi.sizeofTcb.toNat := by
    rw [BitVec.toNat_sub_of_le (by rw [BitVec.le_def, hend]; exact h), hend]
  have hle : (tcbStart abi buffer).toNat ≤
      buffer.data.toNat + buffer.size.toNat - abi.sizeofTcb.toNat := by
    rw [tcbStart, Abi.alignofTcb, toNat_alignDown _ abi.tcb_lt, hsub]
    exact Nat.div_mul_le_self _ _
  omega

/-- `tls_top - tls_size` is aligned already, whether it wraps or not. -/
theorem toNat_tlsBase (abi : Abi w) (buffer : Span w) (tlsBytes : BitVec w) :
    (tlsBase abi buffer tlsBytes).toNat =
      (tcbStart abi buffer - tlsSize abi tlsBytes).toNat := by
  refine toNat_alignDown_of_dvd abi.max_lt ?_
  have hword : 2 ^ abi.maxAlign ∣ 2 ^ w := Nat.pow_dvd_pow 2 (Nat.le_of_lt abi.max_lt)
  have hsize : 2 ^ abi.maxAlign ∣ (tlsSize abi tlsBytes).toNat := dvd_alignUp _ abi.max_lt
  rw [BitVec.toNat_sub]
  refine (Nat.dvd_mod_iff hword).mpr ?_
  exact Nat.dvd_add (Nat.dvd_sub hword hsize) (max_dvd_tcbStart abi buffer)

/-- The thread-local storage fits below the control block: its base is exact. -/
theorem tlsBase_of_le (h : (tlsSize abi tlsBytes).toNat ≤ (tcbStart abi buffer).toNat) :
    (tlsBase abi buffer tlsBytes).toNat =
      (tcbStart abi buffer).toNat - (tlsSize abi tlsBytes).toNat := by
  rw [toNat_tlsBase, BitVec.toNat_sub_of_le h]

/-- It does not fit: its base lies above the control block. -/
theorem tlsBase_of_lt (h : (tcbStart abi buffer).toNat < (tlsSize abi tlsBytes).toNat) :
    (tcbStart abi buffer).toNat < (tlsBase abi buffer tlsBytes).toNat := by
  have hlt := (tlsSize abi tlsBytes).isLt
  rw [toNat_tlsBase, BitVec.toNat_sub, Nat.mod_eq_of_lt (by omega)]
  omega

end Arithmetic

section Result

variable {abi : Abi w} {buffer : Span w} {tlsBytes : BitVec w} {l : StackLayout w}

/-- Without a wrap the layout is right. -/
theorem Exact.carved (hexact : Exact abi buffer tlsBytes)
    (hbuf : buffer.data.toNat + buffer.size.toNat < 2 ^ w)
    (h : carve abi buffer tlsBytes = .ok l) : Carved abi buffer tlsBytes l := by
  obtain ⟨⟨hbase, hlen⟩, rfl⟩ := carve_ok h
  have htls := tlsBase_of_le hexact.tls
  have hfit := hexact.tls
  have hsize : (tcbStart abi buffer - tlsBase abi buffer tlsBytes).toNat =
      (tlsSize abi tlsBytes).toNat := by
    rw [BitVec.toNat_sub_of_le (by rw [BitVec.le_def]; omega)]
    omega
  have hstack : (stackLen abi buffer tlsBytes).toNat =
      (tlsBase abi buffer tlsBytes).toNat - buffer.data.toNat := BitVec.toNat_sub_of_le hbase
  constructor
  · exact dvd_tcbStart abi buffer
  · exact tcbStart_le hbuf hexact.tcb
  · show (tlsBase abi buffer tlsBytes).toNat +
      (tcbStart abi buffer - tlsBase abi buffer tlsBytes).toNat = (tcbStart abi buffer).toNat
    omega
  · show 2 ^ abi.maxAlign ∣ (tlsBase abi buffer tlsBytes).toNat
    rw [htls]
    exact Nat.dvd_sub (max_dvd_tcbStart abi buffer) (dvd_alignUp _ abi.max_lt)
  · show tlsBytes.toNat ≤ (tcbStart abi buffer - tlsBase abi buffer tlsBytes).toNat
    rw [hsize]
    exact le_alignUp abi.max_lt hexact.round
  · rintro rfl
    refine BitVec.eq_of_toNat_eq ?_
    show (tcbStart abi buffer - tlsBase abi buffer 0#w).toNat = (0#w).toNat
    rw [hsize, BitVec.toNat_zero]
    exact alignUp_zero abi.max_lt
  · rfl
  · show buffer.data.toNat + (stackLen abi buffer tlsBytes).toNat =
      (tlsBase abi buffer tlsBytes).toNat
    omega
  · exact hlen

/-- If the size of the thread-local storage wraps when it is rounded up, the storage is
empty. -/
theorem tls_lost (hwrap : 2 ^ w ≤ tlsBytes.toNat + (2 ^ abi.maxAlign - 1)) :
    (tcbStart abi buffer - tlsBase abi buffer tlsBytes).toNat = 0 ∧ 0 < tlsBytes.toNat := by
  have hpow : 2 ^ abi.maxAlign < 2 ^ w := Nat.pow_lt_pow_right (by decide) abi.max_lt
  have hzero : (tlsSize abi tlsBytes).toNat = 0 := toNat_alignUp_of_wrap abi.max_lt hwrap
  have hbase : (tlsBase abi buffer tlsBytes).toNat =
      (tcbStart abi buffer).toNat - (tlsSize abi tlsBytes).toNat := tlsBase_of_le (by omega)
  refine ⟨?_, by omega⟩
  rw [BitVec.toNat_sub_of_le (by rw [BitVec.le_def]; omega)]
  omega

/-- A layout that is right was computed without a wrap. -/
theorem Carved.exact (hcarved : Carved abi buffer tlsBytes l)
    (h : carve abi buffer tlsBytes = .ok l) : Exact abi buffer tlsBytes := by
  obtain ⟨-, rfl⟩ := carve_ok h
  refine ⟨?_, ?_, ?_⟩
  · have htcb := hcarved.tcb_inside
    omega
  · refine Nat.lt_of_not_le fun hwrap => ?_
    obtain ⟨hempty, hpos⟩ : (tcbStart abi buffer - tlsBase abi buffer tlsBytes).toNat = 0 ∧
        0 < tlsBytes.toNat := tls_lost hwrap
    have hsize : tlsBytes.toNat ≤ (tcbStart abi buffer - tlsBase abi buffer tlsBytes).toNat :=
      hcarved.tls_size
    omega
  · refine Nat.le_of_not_lt fun hover => ?_
    have habove := tlsBase_of_lt hover
    have hend : (tlsBase abi buffer tlsBytes).toNat +
        (tcbStart abi buffer - tlsBase abi buffer tlsBytes).toNat =
        (tcbStart abi buffer).toNat := hcarved.tls_end
    omega

/-- **When a stack is carved correctly.** In words of any width, for every buffer below the
end of the address space, every size of the thread-local storage and every control block
whose alignment is a multiple of that of `max_align_t`: when the two assertions have passed,
the layout is what it is meant to be if and only if no computation has wrapped; the three
regions are then disjoint and inside the buffer. -/
theorem carved_iff_exact {w : Nat} {abi : Abi w} {buffer : Span w} {tlsBytes : BitVec w}
    {l : StackLayout w} (hbuf : buffer.data.toNat + buffer.size.toNat < 2 ^ w)
    (h : carve abi buffer tlsBytes = .ok l) :
    (Carved abi buffer tlsBytes l ↔ Exact abi buffer tlsBytes) ∧
    (Exact abi buffer tlsBytes →
      (Disjoint l.userStack.addresses l.tlsRegion.addresses ∧
        Disjoint l.userStack.addresses (l.tcbAddresses abi) ∧
        Disjoint l.tlsRegion.addresses (l.tcbAddresses abi)) ∧
      l.userStack.addresses ⊆ buffer.addresses ∧ l.tlsRegion.addresses ⊆ buffer.addresses ∧
      l.tcbAddresses abi ⊆ buffer.addresses) := by
  refine ⟨⟨fun hcarved => hcarved.exact h, fun hexact => hexact.carved hbuf h⟩, fun hexact => ?_⟩
  have hcarved := hexact.carved hbuf h
  exact ⟨hcarved.disjoint, hcarved.inside⟩

end Result

/-! ## A 32-bit target -/

/-- A control block of 512 bytes on a 32-bit target. -/
def abi32 : Abi 32 where
  sizeofTcb := 512#32
  tcbAlign := 3
  maxAlign := 3
  max_le_tcb := by decide
  tcb_lt := by decide

/-- A buffer of 4096 bytes with 100 bytes of thread-local storage. -/
theorem small_stack_carved : ∃ l, carve abi32 ⟨0x20000000#32, 4096#32⟩ 100#32 = .ok l ∧
    Carved abi32 ⟨0x20000000#32, 4096#32⟩ 100#32 l := by
  refine ⟨_, rfl, (carved_iff_exact (by decide) rfl).1.mpr ⟨by decide, by decide, by decide⟩⟩

/-- **Wrapped layouts pass the assertions.** With almost the whole address space asked for as
thread-local storage the storage is empty. In a buffer of 256 bytes at address 128, smaller
than the control block, the control block is placed below the end of the address space,
outside the buffer, and nearly all of memory becomes the user's stack. -/
theorem wrapped_layouts_accepted :
    (∃ l, carve abi32 ⟨0x20000000#32, 4096#32⟩ 0xffffffff#32 = .ok l ∧
      l.tlsRegion.size = 0#32) ∧
    ∃ l, carve abi32 ⟨128#32, 256#32⟩ 0#32 = .ok l ∧ l.tcb = 0xffffff80#32 ∧
      128 + 256 < l.tcb.toNat ∧ l.userStack.size = 0xffffff00#32 := by
  refine ⟨⟨_, rfl, by decide⟩, _, rfl, by decide, by decide, by decide⟩

end StackLayout

end Cortos.Memory
