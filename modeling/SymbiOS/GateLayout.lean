import SymbiOS.BitStruct
import SymbiOS.Gate

/-!
# The sixteen bytes of a gate

The kernel's `gate_desc` and the `struct idt_entry` of the two modules declare the same
sixteen bytes. `gate_set_offset` writes a handler's address through the first,
`set_idt_entry` through the second, and everything that reads an address back uses the
second.
-/
namespace SymbiOS.Adaptor

abbrev RawGate := BitVec 128

/-- The fields of `gate_desc`. -/
inductive GateField where
  | offsetLow | segment | ist | zero | type | dpl | p | offsetMiddle | offsetHigh | reserved
  deriving DecidableEq, Repr

def GateField.width : GateField → ℕ
  | .offsetLow => 16
  | .segment => 16
  | .ist => 3
  | .zero => 5
  | .type => 5
  | .dpl => 2
  | .p => 1
  | .offsetMiddle => 16
  | .offsetHigh => 32
  | .reserved => 32

def gateDesc : BitStruct GateField where
  order := [.offsetLow, .segment, .ist, .zero, .type, .dpl, .p, .offsetMiddle, .offsetHigh,
    .reserved]
  width := GateField.width

/-- The fields of `struct idt_entry`. Two have no name. -/
inductive EntryField where
  | offset0 | selector | ist | unnamed5 | type | unnamed1 | dpl | p | offset1 | offset2 | reserved
  deriving DecidableEq, Repr

def EntryField.width : EntryField → ℕ
  | .offset0 => 16
  | .selector => 16
  | .ist => 3
  | .unnamed5 => 5
  | .type => 4
  | .unnamed1 => 1
  | .dpl => 2
  | .p => 1
  | .offset1 => 16
  | .offset2 => 32
  | .reserved => 32

def idtEntry : BitStruct EntryField where
  order := [.offset0, .selector, .ist, .unnamed5, .type, .unnamed1, .dpl, .p, .offset1, .offset2,
    .reserved]
  width := EntryField.width

/-- `gate_set_offset`. Each value is cut to the width of its field. -/
def rawSetOffset (gate : RawGate) (addr : Addr) : RawGate :=
  let gate := gateDesc.set gate .offsetLow (addr.setWidth _)
  let gate := gateDesc.set gate .offsetMiddle ((addr >>> 16).setWidth _)
  gateDesc.set gate .offsetHigh ((addr >>> 32).setWidth _)

/-- `set_idt_entry` on the entry of its vector. -/
def setIdtEntry (entry : RawGate) (handlerAddr : Addr) : RawGate :=
  let entry := idtEntry.set entry .offset0 ((handlerAddr &&& 0xFFFF).setWidth _)
  let entry := idtEntry.set entry .offset1 ((handlerAddr >>> 16 &&& 0xFFFF).setWidth _)
  idtEntry.set entry .offset2 ((handlerAddr >>> 32 &&& 0xFFFFFFFF).setWidth _)

/-- The address as `print_idt_entries` and `set_local_df_handler_location` put it
together. -/
def entryOffset (entry : RawGate) : Addr :=
  ((idtEntry.get entry .offset2).setWidth 64 <<< 32) |||
    ((idtEntry.get entry .offset1).setWidth 64 <<< 16) |||
    (idtEntry.get entry .offset0).setWidth 64

/-- The values of one line that `print_idt_entries` prints. -/
structure PrintedEntry where
  offset : Addr
  selector : BitVec 16
  ist : BitVec 8
  typeAttr : BitVec 8
  deriving DecidableEq, Repr

/-- The attributes are put together in an `int`. -/
def printedEntry (entry : RawGate) : PrintedEntry where
  offset := entryOffset entry
  selector := idtEntry.get entry .selector
  ist := (idtEntry.get entry .ist).setWidth 8
  typeAttr :=
    (((idtEntry.get entry .type).setWidth 32 &&& 0x0F) |||
      (((idtEntry.get entry .dpl).setWidth 32 &&& 0x03) <<< 5) |||
      (((idtEntry.get entry .p).setWidth 32 &&& 0x01) <<< 7) : BitVec 32).setWidth 8

lemma and_low_setWidth (x : Addr) :
    (x &&& 0xFFFF).setWidth 16 = x.setWidth 16 ∧
      (x &&& 0xFFFFFFFF).setWidth 32 = x.setWidth 32 := by
  have h16 : (0xFFFF : Addr).setWidth 16 = BitVec.allOnes 16 := by decide
  have h32 : (0xFFFFFFFF : Addr).setWidth 32 = BitVec.allOnes 32 := by decide
  rw [BitVec.setWidth_and, BitVec.setWidth_and, h16, h32, BitVec.and_allOnes, BitVec.and_allOnes]
  exact ⟨rfl, rfl⟩

/-- Both writers do the same. -/
lemma rawSetOffset_eq_setIdtEntry (raw : RawGate) (a : Addr) :
    rawSetOffset raw a = setIdtEntry raw a := by
  have hlow := (and_low_setWidth a).1
  have hmiddle := (and_low_setWidth (a >>> 16)).1
  have hhigh := (and_low_setWidth (a >>> 32)).2
  show idtEntry.set (idtEntry.set (idtEntry.set raw .offset0 (a.setWidth 16)) .offset1
      ((a >>> 16).setWidth 16)) .offset2 ((a >>> 32).setWidth 32) = _
  rw [← hlow, ← hmiddle, ← hhigh]
  rfl

attribute [ext] Gate

/-- The gate that the kernel's declaration sees. -/
def Gate.ofRaw (raw : RawGate) : Gate where
  offsetLow := gateDesc.get raw .offsetLow
  segment := gateDesc.get raw .segment
  ist := gateDesc.get raw .ist
  zero := gateDesc.get raw .zero
  type := gateDesc.get raw .type
  dpl := gateDesc.get raw .dpl
  p := gateDesc.get raw .p
  offsetMiddle := gateDesc.get raw .offsetMiddle
  offsetHigh := gateDesc.get raw .offsetHigh
  reserved := gateDesc.get raw .reserved

lemma or_reverse (x y z : Addr) : x ||| y ||| z = z ||| y ||| x := by
  rw [BitVec.or_comm, BitVec.or_comm x, BitVec.or_assoc]

/-- What reads an address through one declaration reads what the other has. -/
lemma entryOffset_eq_gateOffset (raw : RawGate) :
    entryOffset raw = gateOffset (Gate.ofRaw raw) :=
  or_reverse ((gateDesc.get raw .offsetHigh).setWidth 64 <<< 32)
    ((gateDesc.get raw .offsetMiddle).setWidth 64 <<< 16)
    ((gateDesc.get raw .offsetLow).setWidth 64)

lemma gateDesc_stop_le (f : GateField) : gateDesc.stop f ≤ 128 := by
  cases f <;> decide

lemma gateDesc_disjoint {f g : GateField} (h : f ≠ g) :
    gateDesc.stop f ≤ gateDesc.start g ∨ gateDesc.stop g ≤ gateDesc.start f := by
  cases f <;> cases g <;> first | exact absurd rfl h | decide

/-- A field that holds no part of the address is not touched. -/
lemma get_rawSetOffset (raw : RawGate) (a : Addr) {f : GateField} (hlow : .offsetLow ≠ f)
    (hmiddle : .offsetMiddle ≠ f) (hhigh : .offsetHigh ≠ f) :
    gateDesc.get (rawSetOffset raw a) f = gateDesc.get raw f := by
  have hstop := gateDesc_stop_le f
  rw [rawSetOffset, BitStruct.get_set_of_disjoint _ _ hstop (gateDesc_disjoint hhigh),
    BitStruct.get_set_of_disjoint _ _ hstop (gateDesc_disjoint hmiddle),
    BitStruct.get_set_of_disjoint _ _ hstop (gateDesc_disjoint hlow)]

/-- On the gate as a record `gate_set_offset` sets its three fields. -/
lemma ofRaw_rawSetOffset (raw : RawGate) (a : Addr) :
    Gate.ofRaw (rawSetOffset raw a) = gateSetOffset (Gate.ofRaw raw) a := by
  have hlow : gateDesc.get (rawSetOffset raw a) .offsetLow = a.setWidth _ := by
    rw [rawSetOffset,
      BitStruct.get_set_of_disjoint _ _ (gateDesc_stop_le _) (gateDesc_disjoint (by decide)),
      BitStruct.get_set_of_disjoint _ _ (gateDesc_stop_le _) (gateDesc_disjoint (by decide)),
      BitStruct.get_set_self _ _ (gateDesc_stop_le _)]
  have hmiddle : gateDesc.get (rawSetOffset raw a) .offsetMiddle = (a >>> 16).setWidth _ := by
    rw [rawSetOffset,
      BitStruct.get_set_of_disjoint _ _ (gateDesc_stop_le _) (gateDesc_disjoint (by decide)),
      BitStruct.get_set_self _ _ (gateDesc_stop_le _)]
  have hhigh : gateDesc.get (rawSetOffset raw a) .offsetHigh = (a >>> 32).setWidth _ := by
    rw [rawSetOffset, BitStruct.get_set_self _ _ (gateDesc_stop_le _)]
  have hkeep {f : GateField} (h : f ≠ .offsetLow ∧ f ≠ .offsetMiddle ∧ f ≠ .offsetHigh) :=
    get_rawSetOffset raw a h.1.symm h.2.1.symm h.2.2.symm
  exact Gate.ext hlow (hkeep (f := .segment) (by decide)) (hkeep (f := .ist) (by decide))
    (hkeep (f := .zero) (by decide)) (hkeep (f := .type) (by decide))
    (hkeep (f := .dpl) (by decide)) (hkeep (f := .p) (by decide)) hmiddle hhigh
    (hkeep (f := .reserved) (by decide))

lemma entryOffset_rawSetOffset (raw : RawGate) (a : Addr) :
    entryOffset (rawSetOffset raw a) = a := by
  rw [entryOffset_eq_gateOffset, ofRaw_rawSetOffset, gateOffset_gateSetOffset]

lemma entryOffset_setIdtEntry (raw : RawGate) (a : Addr) :
    entryOffset (setIdtEntry raw a) = a := by
  rw [← rawSetOffset_eq_setIdtEntry, entryOffset_rawSetOffset]

/-- The bits that hold the address. -/
def InOffset (i : ℕ) : Prop := i < 16 ∨ (48 ≤ i ∧ i < 96)

lemma getLsbD_rawSetOffset (raw : RawGate) (a : Addr) {i : ℕ} (hi : i < 128)
    (h : ¬ InOffset i) : (rawSetOffset raw a).getLsbD i = raw.getLsbD i := by
  have hout (f : GateField) (hf : ¬ (gateDesc.start f ≤ i ∧ i < gateDesc.stop f)) (r : RawGate)
      (v : BitVec (gateDesc.width f)) : (gateDesc.set r f v).getLsbD i = r.getLsbD i := by
    rw [BitStruct.getLsbD_set _ _ _ _ hi, if_neg hf]
  have hlow : gateDesc.start .offsetLow = 0 ∧ gateDesc.stop .offsetLow = 16 := by decide
  have hmiddle : gateDesc.start .offsetMiddle = 48 ∧ gateDesc.stop .offsetMiddle = 64 := by decide
  have hhigh : gateDesc.start .offsetHigh = 64 ∧ gateDesc.stop .offsetHigh = 96 := by decide
  unfold InOffset at h
  rw [rawSetOffset, hout .offsetHigh (by omega), hout .offsetMiddle (by omega),
    hout .offsetLow (by omega)]

/-- The attribute byte is byte 5 of the gate without its bit 4. -/
lemma printedEntry_typeAttr (raw : RawGate) :
    (printedEntry raw).typeAttr = raw.extractLsb' 40 8 &&& 0xEF := by
  have hfields : (printedEntry raw).typeAttr =
      (((raw.extractLsb' 40 4).setWidth 32 &&& 0x0F) |||
        (((raw.extractLsb' 45 2).setWidth 32 &&& 0x03) <<< 5) |||
        (((raw.extractLsb' 47 1).setWidth 32 &&& 0x01) <<< 7) : BitVec 32).setWidth 8 := rfl
  rw [hfields]
  apply BitVec.eq_of_getLsbD_eq
  intro i hi
  interval_cases i <;> simp

/-- Attributes other than bit 4 are those of the gate. -/
lemma typeAttr_bits (raw : RawGate) (k w : ℕ) (hk : k + w ≤ 8)
    (hbit : ∀ j < w, (0xEF : BitVec 8).getLsbD (k + j) = true) :
    (printedEntry raw).typeAttr.extractLsb' k w = raw.extractLsb' (40 + k) w := by
  rw [printedEntry_typeAttr]
  apply BitVec.eq_of_getLsbD_eq
  intro j hj
  have hlt : k + j < 8 := by omega
  rw [BitVec.getLsbD_extractLsb', BitVec.getLsbD_and, hbit j hj, BitVec.getLsbD_extractLsb',
    BitVec.getLsbD_extractLsb', decide_eq_true hlt, Bool.true_and, Bool.and_true, Nat.add_assoc]

/-- For every gate and every address: what `gate_set_offset` or `set_idt_entry` writes
is read back, no bit outside of the three offset fields changes, and the selector, the
IST index and the attributes that are printed are those of the gate. -/
theorem gate_offsets_survive (raw : RawGate) (a : Addr) :
    entryOffset (rawSetOffset raw a) = a ∧ entryOffset (setIdtEntry raw a) = a ∧
    (∀ i < 128, ¬ InOffset i → (rawSetOffset raw a).getLsbD i = raw.getLsbD i ∧
      (setIdtEntry raw a).getLsbD i = raw.getLsbD i) ∧
    (printedEntry raw).offset = entryOffset raw ∧
    (printedEntry raw).selector = raw.extractLsb' 16 16 ∧
    (printedEntry raw).ist = (raw.extractLsb' 32 3).setWidth 8 ∧
    (printedEntry raw).typeAttr.extractLsb' 0 4 = raw.extractLsb' 40 4 ∧
    (printedEntry raw).typeAttr.extractLsb' 5 2 = raw.extractLsb' 45 2 ∧
    (printedEntry raw).typeAttr.extractLsb' 7 1 = raw.extractLsb' 47 1 := by
  refine ⟨entryOffset_rawSetOffset raw a, entryOffset_setIdtEntry raw a, ?_, rfl, rfl, rfl,
    ?_, ?_, ?_⟩
  · intro i hi hout
    rw [← rawSetOffset_eq_setIdtEntry]
    exact ⟨getLsbD_rawSetOffset raw a hi hout, getLsbD_rawSetOffset raw a hi hout⟩
  · exact typeAttr_bits raw 0 4 (by decide) (by decide)
  · exact typeAttr_bits raw 5 2 (by decide) (by decide)
  · exact typeAttr_bits raw 7 1 (by decide) (by decide)

end SymbiOS.Adaptor
