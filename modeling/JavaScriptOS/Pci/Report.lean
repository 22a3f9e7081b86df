import JavaScriptOS.Libc.Console
import JavaScriptOS.Pci.Legacy

/-!
# What the C enumerator prints

`enumerate_function` of `pci.c` puts a number and a name into each of four arrays of 128 bytes, with `sprintf` and
`strcpy`, and prints them in one call of `debug_printf`. The tables of names are parameters, since the repository
does not have their header. Not every number has a name in them. An array is the first cells of its memory.
-/

namespace JavaScriptOS.Pci
open JavaScriptOS.Lib JavaScriptOS.Libc

section Slots

/-- A number for `%u` or a string for `%s`. -/
inductive Slot where
  | number (v : BitVec 64)
  | string (s : List (BitVec 8))

namespace Slot

def directive : Slot → List (BitVec 8)
  | .number _ => text "%u"
  | .string _ => text "%s"

def arg : Slot → Arg
  | .number v => .ulong v
  | .string s => .string s

def shown : Slot → List (BitVec 8)
  | .number v => decimal v.toNat
  | .string s => s

/-- The characters that a number of one byte and a string for an array of 128 bytes take at most. -/
def width : Slot → Nat
  | .number _ => 3
  | .string _ => 127

/-- The number is not changed by the conversion to `int`, and the string is one. -/
def Fits : Slot → Prop
  | .number v => v.toNat < 2 ^ 31
  | .string s => 0 ∉ s

end Slot

/-- Texts with a slot behind each. -/
abbrev Template := List (List (BitVec 8) × Slot)

def Template.format (l : Template) : List (BitVec 8) := l.flatMap fun x => x.1 ++ x.2.directive

def Template.shown (l : Template) : List (BitVec 8) := l.flatMap fun x => x.1 ++ x.2.shown

variable {s fmt : List (BitVec 8)} {a : List Arg} {t : List (BitVec 8)}

/-- A text without a `%` in front of a format. -/
lemma prints_text (hs : ascii '%' ∉ s) (h : Prints (pieces fmt) a t) : Prints (pieces (s ++ fmt)) a (s ++ t) := by
  induction s with
  | nil => exact h
  | cons c s ih =>
    have hc : c ≠ ascii '%' := fun hc => hs (hc ▸ List.mem_cons_self)
    rw [List.cons_append, pieces_literal hc]
    exact .cons (.literal c hc) (ih fun hmem => hs (List.mem_cons_of_mem _ hmem))

lemma asInt_of_lt {v : BitVec 64} (h : v.toNat < 2 ^ 31) : asInt v = v := asInt_eq_iff.mpr (Or.inl h)

lemma prints_slot {x : Slot} (hx : x.Fits) (h : Prints (pieces fmt) a t) :
    Prints (pieces (x.directive ++ fmt)) (x.arg :: a) (x.shown ++ t) := by
  cases x with
  | number v =>
    have hslot := Prints.cons (.unsigned v) h
    rw [asInt_of_lt hx] at hslot
    exact hslot
  | string s => exact .cons (.string s hx) h

lemma prints_template {l : Template} (hl : ∀ x ∈ l, ascii '%' ∉ x.1 ∧ x.2.Fits) (hs : ascii '%' ∉ s) :
    Prints (pieces (l.format ++ s)) (l.map (·.2.arg)) (l.shown ++ s) := by
  induction l with
  | nil =>
    have hnil : Prints (pieces []) [] [] := .nil
    have hend := prints_text hs hnil
    rwa [List.append_nil] at hend
  | cons x l ih =>
    obtain ⟨htext, hslot⟩ := hl x List.mem_cons_self
    simp only [Template.format, Template.shown, List.flatMap_cons, List.append_assoc, List.map_cons]
    exact prints_text htext (prints_slot hslot (ih fun y hy => hl y (List.mem_cons_of_mem _ hy)))

/-- A bound for what is shown from bounds for texts, numbers and strings. -/
lemma Template.length_shown_le {l : Template} {k : Nat}
    (hl : ∀ x ∈ l, x.1.length ≤ k ∧ x.2.shown.length ≤ x.2.width) :
    l.shown.length ≤ (l.map fun x => k + x.2.width).sum := by
  induction l with
  | nil => exact Nat.le_refl _
  | cons x l ih =>
    obtain ⟨htext, hslot⟩ := hl x List.mem_cons_self
    have hrest := ih fun y hy => hl y (List.mem_cons_of_mem _ hy)
    simp only [Template.shown, List.flatMap_cons, List.length_append, List.map_cons, List.sum_cons] at hrest ⊢
    omega

lemma Template.shown_le {l : Template} {x : List (BitVec 8) × Slot} (hx : x ∈ l) :
    x.2.shown.length ≤ l.shown.length := by
  obtain ⟨before, after, rfl⟩ := List.append_of_mem hx
  simp only [Template.shown, List.flatMap_append, List.flatMap_cons, List.length_append]
  omega

end Slots

namespace Legacy

/-- A C string, without its NUL. -/
abbrev Name := { s : List (BitVec 8) // 0 ∉ s }

/-- `pci_vendor_strings`, `pci_device_strings`, `pci_class_strings` and `pci_subclass_strings` of `pcidef.h`. There is
no name where a table ends before the number, or has a null pointer for it or for the table that is to have it. -/
structure NameTables where
  vendor : BitVec 16 → Option Name
  device : BitVec 16 → BitVec 16 → Option Name
  deviceClass : BitVec 8 → Option Name
  subclass : BitVec 8 → BitVec 8 → Option Name

/-- The names for one function of a device. -/
structure Names where
  vendor : Name
  device : Name
  deviceClass : Name
  subclass : Name

/-- The arrays of `enumerate_function` and the array of `debug_printf`. -/
structure Locals where
  vendor : Buf
  device : Buf
  deviceClass : Buf
  subclass : Buf
  buf : Buf

/-- The size of the arrays for a number and a name. -/
def labelSize : Nat := 128

/-- The string at a pointer of a table. -/
def nameAt : Option Name → Except Fault Name
  | none => .error .nullPointer
  | some name => .ok name

/-- `n = sprintf(label, "%x ", id); strcpy(label + n, name)`. -/
def label (m : Buf) (id : BitVec 64) (entry : Option Name) : Except Fault Buf := do
  let (m, n) ← vsprintf m (text "%x " ++ [0]) [.ulong id]
  let name ← nameAt entry
  pure (strcpy m n.toNat name.1).1

def reportFormat : List (BitVec 8) :=
  text "Found PCI device:\n\tbus:%u, device:%u, function:%u" ++
    text "\n\tvendor:%s, device:%s, revision:%u" ++
    text "\n\tclass:%s, subclass:%s, interface:%u\n"

section Report

variable (names : NameTables) (cfg : ConfigSpace) (d : DeviceBase)

/-- `enumerate_function` up to its recursion into bridges, with the bytes sent to the port. -/
def report (rounds : Nat) (l : Locals) : Except Fault (Locals × List (BitVec 8)) := do
  let vendorID := pciReadRegister16 cfg d 0x00
  let deviceID := pciReadRegister16 cfg d 0x02
  let revisionID := pciReadRegister8 cfg d 0x08
  let deviceClass := pciReadRegister8 cfg d 0x0B
  let subclass := pciReadRegister8 cfg d 0x0A
  let progIF := pciReadRegister8 cfg d 0x09
  let vendorMem ← label l.vendor (vendorID.setWidth 64) (names.vendor vendorID)
  let deviceMem ← label l.device (deviceID.setWidth 64) (names.device vendorID deviceID)
  let classMem ← label l.deviceClass (deviceClass.setWidth 64) (names.deviceClass deviceClass)
  let subclassMem ← label l.subclass (subclass.setWidth 64) (names.subclass deviceClass subclass)
  -- what `%s` reads from the arrays
  let vendorStr ← readString vendorMem rounds 0
  let deviceStr ← readString deviceMem rounds 0
  let classStr ← readString classMem rounds 0
  let subclassStr ← readString subclassMem rounds 0
  let (buf, sent) ← debugPrintf rounds l.buf (reportFormat ++ [0])
    [.ulong (BitVec.ofNat 64 d.bus), .ulong (BitVec.ofNat 64 d.device), .ulong (BitVec.ofNat 64 d.function),
      .string vendorStr, .string deviceStr, .ulong (revisionID.setWidth 64),
      .string classStr, .string subclassStr, .ulong (progIF.setWidth 64)]
  pure (⟨vendorMem, deviceMem, classMem, subclassMem, buf⟩, sent)

/-- The names that the tables have for a function, if they have all four. -/
def NameTables.lookup : Option Names := do
  let vendor ← names.vendor (pciReadRegister16 cfg d 0x00)
  let device ← names.device (pciReadRegister16 cfg d 0x00) (pciReadRegister16 cfg d 0x02)
  let deviceClass ← names.deviceClass (pciReadRegister8 cfg d 0x0B)
  let subclass ← names.subclass (pciReadRegister8 cfg d 0x0B) (pciReadRegister8 cfg d 0x0A)
  pure ⟨vendor, device, deviceClass, subclass⟩

end Report

section Text

variable (n : Names) (cfg : ConfigSpace) (d : DeviceBase)

def labelText (id : Nat) (name : Name) : List (BitVec 8) := text "0x" ++ hexadecimal id ++ text " " ++ name.1

def vendorLabel : List (BitVec 8) := labelText (pciReadRegister16 cfg d 0x00).toNat n.vendor

def deviceLabel : List (BitVec 8) := labelText (pciReadRegister16 cfg d 0x02).toNat n.device

def classLabel : List (BitVec 8) := labelText (pciReadRegister8 cfg d 0x0B).toNat n.deviceClass

def subclassLabel : List (BitVec 8) := labelText (pciReadRegister8 cfg d 0x0A).toNat n.subclass

/-- What the four arrays should hold. -/
def labels : List (List (BitVec 8)) :=
  [vendorLabel n cfg d, deviceLabel n cfg d, classLabel n cfg d, subclassLabel n cfg d]

/-- The texts of the report and what is to be shown behind them. -/
def reportSlots : Template :=
  [(text "Found PCI device:\n\tbus:", .number (BitVec.ofNat 64 d.bus)),
    (text ", device:", .number (BitVec.ofNat 64 d.device)),
    (text ", function:", .number (BitVec.ofNat 64 d.function)),
    (text "\n\tvendor:", .string (vendorLabel n cfg d)),
    (text ", device:", .string (deviceLabel n cfg d)),
    (text ", revision:", .number ((pciReadRegister8 cfg d 0x08).setWidth 64)),
    (text "\n\tclass:", .string (classLabel n cfg d)),
    (text ", subclass:", .string (subclassLabel n cfg d)),
    (text ", interface:", .number ((pciReadRegister8 cfg d 0x09).setWidth 64))]

def reportText : List (BitVec 8) := (reportSlots n cfg d).shown ++ text "\n"

end Text

/-- Nothing outside the arrays has changed. -/
structure Locals.Untouched (l l' : Locals) : Prop where
  vendor : ∀ x, labelSize ≤ x → l'.vendor x = l.vendor x
  device : ∀ x, labelSize ≤ x → l'.device x = l.device x
  deviceClass : ∀ x, labelSize ≤ x → l'.deviceClass x = l.deviceClass x
  subclass : ∀ x, labelSize ≤ x → l'.subclass x = l.subclass x
  buf : ∀ x, debugBufSize ≤ x → l'.buf x = l.buf x

end Legacy

section Label

variable {id : Nat} {name : Legacy.Name}

lemma zero_not_mem_labelText : 0 ∉ Legacy.labelText id name := by
  simp only [Legacy.labelText, List.mem_append, not_or]
  exact ⟨⟨⟨by decide, zero_not_mem_numeral (by decide) (by decide) _⟩, by decide⟩, name.2⟩

/-- The array holds the number and the name. -/
lemma label_eq (m : Buf) (v : BitVec 64) (hv : v.toNat < 2 ^ 31) :
    Legacy.label m v (some name) = .ok (overwrite m 0 (Legacy.labelText v.toNat name ++ [0])) := by
  have hwrites : Writes (text "%x ") [.ulong v] (text "0x" ++ hexadecimal v.toNat ++ text " ") := by
    have hblank : Prints (pieces (text " ")) [] (text " ") := .cons (.literal (ascii ' ') (by decide)) .nil
    have hprints := Prints.cons (.hex v) hblank
    rw [asInt_of_lt hv] at hprints
    exact writes_of_prints (f := ⟨text "%x ", by decide, by decide⟩) hprints
  have hlen : (text "0x" ++ hexadecimal v.toNat ++ text " ").length < 2 ^ 32 := by
    have hhex : (hexadecimal v.toNat).length ≤ 8 :=
      length_numeral_le digitChar (by decide) (by decide) (hv.trans (by decide))
    have htwo : (text "0x").length = 2 := by decide
    have hone : (text " ").length = 1 := by decide
    rw [List.length_append, List.length_append]
    omega
  have hrun := hwrites m [] []
  rw [List.append_nil] at hrun
  rw [Legacy.label, hrun, ok_bind]
  dsimp only
  -- the name starts where the NUL was
  have hover := overwrite_over_last m 0 (text "0x" ++ hexadecimal v.toNat ++ text " ") 0
    (List.append_ne_nil_of_right_ne_nil name.1 (List.cons_ne_nil (0 : BitVec 8) []))
  rw [Nat.zero_add, ← List.append_assoc] at hover
  have hname : Legacy.nameAt (some name) = .ok name := rfl
  rw [BitVec.toNat_ofNat, Nat.mod_eq_of_lt hlen, hname, ok_bind, strcpy_eq name.2, Legacy.labelText]
  exact congrArg Except.ok hover

/-- An array is filled only with a name. -/
lemma label_named {m m' : Buf} {v : BitVec 64} {entry : Option Legacy.Name} (h : Legacy.label m v entry = .ok m') :
    ∃ name, entry = some name := by
  cases entry with
  | some name => exact ⟨name, rfl⟩
  | none =>
    obtain ⟨p, -, hrest⟩ := bind_eq_ok.mp h
    cases hrest

end Label

section Line

/-- The format of the report as a C string. -/
def reportCString : CompleteFormat := ⟨Legacy.reportFormat, by decide +kernel, by decide +kernel⟩

lemma reportCString_chars : reportCString.chars = Legacy.reportFormat := by simp only [reportCString]

variable (n : Legacy.Names) (cfg : ConfigSpace) (d : DeviceBase)

lemma reportFormat_eq : Legacy.reportFormat = (Legacy.reportSlots n cfg d).format ++ text "\n" := by
  have hclosed : Legacy.reportFormat =
      [text "Found PCI device:\n\tbus:", text "%u", text ", device:", text "%u", text ", function:", text "%u",
        text "\n\tvendor:", text "%s", text ", device:", text "%s", text ", revision:", text "%u",
        text "\n\tclass:", text "%s", text ", subclass:", text "%s", text ", interface:", text "%u"].flatten ++
        text "\n" := by decide +kernel
  rw [hclosed]
  rfl

lemma toNat_setWidth_byte (v : BitVec 8) : (v.setWidth 64).toNat = v.toNat :=
  BitVec.toNat_setWidth_of_le (by decide)

/-- Every text of the report is plain and short, and every slot fits its directive. -/
lemma reportSlots_ok : ∀ x ∈ Legacy.reportSlots n cfg d,
    (ascii '%' ∉ x.1 ∧ x.1.length ≤ 23) ∧ x.2.Fits := by
  have htexts : ∀ s ∈ [text "Found PCI device:\n\tbus:", text ", device:", text ", function:", text "\n\tvendor:",
      text ", device:", text ", revision:", text "\n\tclass:", text ", subclass:", text ", interface:"],
      ascii '%' ∉ s ∧ s.length ≤ 23 := by decide +kernel
  have hsmall : ∀ n < 256, (BitVec.ofNat 64 n).toNat < 2 ^ 31 := by
    intro n hn
    rw [BitVec.toNat_ofNat]
    omega
  have hbyte : ∀ v : BitVec 8, (v.setWidth 64).toNat < 2 ^ 31 := by
    intro v
    rw [toNat_setWidth_byte]
    exact v.isLt.trans (by decide)
  have hslots : ∀ y ∈ (Legacy.reportSlots n cfg d).map Prod.snd, y.Fits := by
    simp only [Legacy.reportSlots, List.map_cons, List.map_nil, List.forall_mem_cons]
    exact ⟨hsmall _ d.bus.isLt, hsmall _ (by omega), hsmall _ (by omega), zero_not_mem_labelText,
      zero_not_mem_labelText, hbyte _, zero_not_mem_labelText, zero_not_mem_labelText, hbyte _, List.forall_mem_nil _⟩
  intro x hx
  exact ⟨htexts x.1 (List.mem_map_of_mem (f := Prod.fst) hx), hslots x.2 (List.mem_map_of_mem hx)⟩

lemma prints_report : Prints (pieces reportCString.chars) ((Legacy.reportSlots n cfg d).map (·.2.arg))
    (Legacy.reportText n cfg d) := by
  rw [reportCString_chars, reportFormat_eq n cfg d]
  exact prints_template (fun x hx => ⟨(reportSlots_ok n cfg d x hx).1.1, (reportSlots_ok n cfg d x hx).2⟩)
    (by decide)

end Line

section Safety

variable (n : Legacy.Names) (cfg : ConfigSpace) (d : DeviceBase)

/-- The arrays after the report. -/
def reported (l : Legacy.Locals) : Legacy.Locals where
  vendor := overwrite l.vendor 0 (Legacy.vendorLabel n cfg d ++ [0])
  device := overwrite l.device 0 (Legacy.deviceLabel n cfg d ++ [0])
  deviceClass := overwrite l.deviceClass 0 (Legacy.classLabel n cfg d ++ [0])
  subclass := overwrite l.subclass 0 (Legacy.subclassLabel n cfg d ++ [0])
  buf := overwrite l.buf 0 (Legacy.reportText n cfg d ++ [0])

lemma labels_ok : ∀ s ∈ Legacy.labels n cfg d,
    0 ∉ s ∧ s.length ≤ (Legacy.reportSlots n cfg d).shown.length := by
  have hshown : ∀ s, (∃ x, (x, Slot.string s) ∈ Legacy.reportSlots n cfg d) →
      s.length ≤ (Legacy.reportSlots n cfg d).shown.length := by
    rintro s ⟨x, hx⟩
    exact Template.shown_le hx
  simp only [Legacy.labels, List.forall_mem_cons]
  refine ⟨⟨zero_not_mem_labelText, hshown _ ?_⟩, ⟨zero_not_mem_labelText, hshown _ ?_⟩,
    ⟨zero_not_mem_labelText, hshown _ ?_⟩, ⟨zero_not_mem_labelText, hshown _ ?_⟩, List.forall_mem_nil _⟩
  · exact ⟨_, .tail _ (.tail _ (.tail _ (.head _)))⟩
  · exact ⟨_, .tail _ (.tail _ (.tail _ (.tail _ (.head _))))⟩
  · exact ⟨_, .tail _ (.tail _ (.tail _ (.tail _ (.tail _ (.tail _ (.head _))))))⟩
  · exact ⟨_, .tail _ (.tail _ (.tail _ (.tail _ (.tail _ (.tail _ (.tail _ (.head _)))))))⟩

/-- What `%s` reads from an array is what was put there. -/
lemma readString_label {s : List (BitVec 8)} (hs : s ∈ Legacy.labels n cfg d) {rounds : Nat}
    (hrounds : (Legacy.reportText n cfg d).length < rounds) (m : Buf) :
    readString (overwrite m 0 (s ++ [0])) rounds 0 = .ok s := by
  obtain ⟨hnul, hle⟩ := labels_ok n cfg d s hs
  rw [Legacy.reportText, List.length_append] at hrounds
  exact readString_overwrite m 0 hnul (by omega)

lemma label_word (m : Buf) (v : BitVec 16) (name : Legacy.Name) :
    Legacy.label m (v.setWidth 64) (some name) = .ok (overwrite m 0 (Legacy.labelText v.toNat name ++ [0])) := by
  have hv : (v.setWidth 64).toNat = v.toNat := BitVec.toNat_setWidth_of_le (by decide)
  rw [label_eq m (v.setWidth 64) (hv ▸ v.isLt.trans (by decide)), hv]

lemma label_byte (m : Buf) (v : BitVec 8) (name : Legacy.Name) :
    Legacy.label m (v.setWidth 64) (some name) = .ok (overwrite m 0 (Legacy.labelText v.toNat name ++ [0])) := by
  have hv := toNat_setWidth_byte v
  rw [label_eq m (v.setWidth 64) (hv ▸ v.isLt.trans (by decide)), hv]

lemma lookup_eq_some {names : Legacy.NameTables} (h : names.lookup cfg d = some n) :
    names.vendor (Legacy.pciReadRegister16 cfg d 0x00) = some n.vendor ∧
      names.device (Legacy.pciReadRegister16 cfg d 0x00) (Legacy.pciReadRegister16 cfg d 0x02) = some n.device ∧
      names.deviceClass (Legacy.pciReadRegister8 cfg d 0x0B) = some n.deviceClass ∧
      names.subclass (Legacy.pciReadRegister8 cfg d 0x0B) (Legacy.pciReadRegister8 cfg d 0x0A) = some n.subclass := by
  simp only [Legacy.NameTables.lookup, Option.bind_eq_bind, Option.bind_eq_some_iff] at h
  obtain ⟨vendor, hvendor, device, hdevice, deviceClass, hclass, subclass, hsubclass, hnames⟩ := h
  cases hnames
  exact ⟨hvendor, hdevice, hclass, hsubclass⟩

lemma report_eq {names : Legacy.NameTables} (hnames : names.lookup cfg d = some n) (l : Legacy.Locals) {rounds : Nat}
    (hrounds : (Legacy.reportText n cfg d).length < rounds) :
    Legacy.report names cfg d rounds l = .ok (reported n cfg d l, Legacy.reportText n cfg d) := by
  have hread := fun s hs => readString_label n cfg d (s := s) hs hrounds
  simp only [Legacy.labels, List.forall_mem_cons] at hread
  obtain ⟨hvendor, hdevice, hclass, hsubclass, -⟩ := hread
  obtain ⟨hv, hd, hc, hs⟩ := lookup_eq_some n cfg d hnames
  have hprint := debugPrintf_eq (prints_report n cfg d) l.buf [] [] hrounds
  rw [List.append_nil, reportCString_chars] at hprint
  unfold Legacy.report
  simp only [hv, hd, hc, hs, label_word, label_byte, ok_bind]
  unfold Legacy.vendorLabel at hvendor
  unfold Legacy.deviceLabel at hdevice
  unfold Legacy.classLabel at hclass
  unfold Legacy.subclassLabel at hsubclass
  rw [hvendor, ok_bind, hdevice, ok_bind, hclass, ok_bind, hsubclass, ok_bind]
  exact (congrArg (· >>= _) hprint).trans (ok_bind _ _)

/-- A report of labels that fit their arrays fits the array of `debug_printf`. -/
lemma length_reportText (h : ∀ s ∈ Legacy.labels n cfg d, s.length < Legacy.labelSize) :
    (Legacy.reportText n cfg d).length < debugBufSize := by
  have hdecimal : ∀ n < 256, (Slot.number (BitVec.ofNat 64 n)).shown.length ≤ 3 := by
    intro n hn
    have hnat : (BitVec.ofNat 64 n).toNat = n := Nat.mod_eq_of_lt (by omega)
    rw [Slot.shown, hnat]
    exact length_numeral_le digitChar (by decide) (by decide) (hn.trans (by decide))
  have hbyte : ∀ v : BitVec 8, (Slot.number (v.setWidth 64)).shown.length ≤ 3 := by
    intro v
    rw [Slot.shown, toNat_setWidth_byte]
    exact length_numeral_le digitChar (by decide) (by decide) (v.isLt.trans (by decide))
  have hlabels : ∀ s ∈ Legacy.labels n cfg d, (Slot.string s).shown.length ≤ 127 :=
    fun s hs => Nat.le_of_lt_succ (h s hs)
  simp only [Legacy.labels, List.forall_mem_cons] at hlabels
  obtain ⟨hvendor, hdevice, hclass, hsubclass, -⟩ := hlabels
  have hslots : ∀ y ∈ (Legacy.reportSlots n cfg d).map Prod.snd, y.shown.length ≤ y.width := by
    simp only [Legacy.reportSlots, List.map_cons, List.map_nil, List.forall_mem_cons]
    exact ⟨hdecimal _ d.bus.isLt, hdecimal _ (by omega), hdecimal _ (by omega), hvendor, hdevice, hbyte _, hclass,
      hsubclass, hbyte _, List.forall_mem_nil _⟩
  have hshown := Template.length_shown_le fun x hx =>
    ⟨(reportSlots_ok n cfg d x hx).1.2, hslots x.2 (List.mem_map_of_mem hx)⟩
  have hsum : ((Legacy.reportSlots n cfg d).map fun x => 23 + x.2.width).sum = 730 := by
    simp [Legacy.reportSlots, Slot.width]
  have hend : (text "\n").length = 1 := by decide
  rw [Legacy.reportText, List.length_append, hend]
  unfold debugBufSize
  omega

/-- A name that no table has is copied from a null pointer. -/
lemma report_missing {names : Legacy.NameTables} (hnames : names.lookup cfg d = none) (l : Legacy.Locals) (rounds : Nat) :
    ∀ out, Legacy.report names cfg d rounds l ≠ .ok out := by
  intro out hout
  simp only [Legacy.report, bind_eq_ok] at hout
  obtain ⟨vendorMem, hvendor, deviceMem, hdevice, classMem, hclass, subclassMem, hsubclass, -⟩ := hout
  obtain ⟨vendor, hv⟩ := label_named hvendor
  obtain ⟨device, hd⟩ := label_named hdevice
  obtain ⟨deviceClass, hc⟩ := label_named hclass
  obtain ⟨subclass, hs⟩ := label_named hsubclass
  rw [Legacy.NameTables.lookup, hv, hd, hc, hs] at hnames
  cases hnames

end Safety

end JavaScriptOS.Pci
