import Ia32.Form
import Ia32.Proofs.Acceptance

/-!
# The opcode map as a selection

The extension in the code selects at most one of the forms that an opcode has, so the order
in which they are tried has no influence. The second part lists the map by mnemonic, as a
manual does, and shows that the forms agree with the listing: which opcodes there are, which
mnemonic an opcode and an extension stand for, and which extensions stand for nothing.
-/

namespace Ia32.OpcodeMap

/-! ## Selection by extension -/

/-- What the forms of an opcode look like. -/
inductive Shape : List (Form OperandSize) → Prop where
  | none : Shape []
  | single {form : Form OperandSize} (alone : form.extension? = .none) : Shape [form]
  | move (size : OperandSize) : Shape [.movePlaceImmediate size]
  | immediate (operand immediate : OperandSize)
      (narrow : immediate = .byte ∨ immediate = operand) :
      Shape (immediateGroup operand immediate)
  | unary (size : OperandSize) : Shape (unaryGroup size)

theorem shape_binaryForms (opcode : Nat) : Shape (binaryForms opcode) := by
  unfold binaryForms
  split
  next => exact .none
  next op _ =>
    split
    case h_7 => exact .none
    all_goals exact .single rfl

theorem shape_forms (opcode : UInt8) : Shape (forms opcode) := by
  unfold forms
  dsimp only
  split
  next => exact shape_binaryForms opcode.toNat
  split
  next => exact .single rfl
  split
  next => exact .single rfl
  split
  case h_1 | h_3 => exact .immediate _ _ (.inl rfl)
  case h_2 => exact .immediate _ _ (.inr rfl)
  case h_16 | h_17 => exact .move _
  case h_20 | h_21 => exact .unary _
  case h_22 => exact .none
  all_goals exact .single rfl

/-- In the opcode map no immediate value is wider than its operand. -/
theorem immediateFits_of_mem_forms {opcode : UInt8} {form : Form OperandSize}
    (member : form ∈ forms opcode) (full : Width) : (form.resolve full).ImmediateFits := by
  have shape := shape_forms opcode
  generalize forms opcode = listed at member shape
  cases shape with
  | none => cases member
  | @single only alone =>
      rcases List.mem_singleton.mp member with rfl
      exact Form.immediateFits_of_alone (by rwa [Form.resolve, Form.extension?_map])
  | move size =>
      rcases List.mem_singleton.mp member with rfl
      trivial
  | immediate operand immediate narrow =>
      rcases List.mem_map.mp member with ⟨op, _, rfl⟩
      rcases narrow with rfl | rfl
      · exact Width.bytes_pos _
      · exact Nat.le_refl _
  | unary size =>
      rcases List.mem_cons.mp member with rfl | other
      · exact Nat.le_refl _
      · rcases List.mem_map.mp other with ⟨op, _, rfl⟩
        trivial

/-- Two forms of which no extension is taken by both. -/
def Apart (left right : Form OperandSize) : Prop :=
  ∀ extension, left.Accepts extension → ¬right.Accepts extension

instance (left right : Form OperandSize) : Decidable (Apart left right) :=
  inferInstanceAs (Decidable (∀ extension, left.Accepts extension → ¬right.Accepts extension))

theorem pairwise_apart_forms (opcode : UInt8) : (forms opcode).Pairwise Apart := by
  have shape := shape_forms opcode
  generalize forms opcode = listed at shape
  cases shape with
  | none => exact .nil
  | single alone => exact List.pairwise_singleton _ _
  | move size => exact List.pairwise_singleton _ _
  | immediate operand immediate narrow => cases operand <;> cases immediate <;> decide
  | unary size => cases size <;> decide

/-- The one form of an opcode that takes an extension. -/
def selected? (opcode : UInt8) (extension : Extension) : Option (Form OperandSize) :=
  match (forms opcode).filter (·.Accepts extension) with
  | [form] => some form
  | _ => none

/-- At most one form of an opcode takes an extension. -/
theorem filter_accepts_forms (opcode : UInt8) (extension : Extension) :
    (forms opcode).filter (·.Accepts extension) = (selected? opcode extension).toList := by
  have apart := (pairwise_apart_forms opcode).filter (·.Accepts extension)
  unfold selected?
  cases accepting : (forms opcode).filter (·.Accepts extension) with
  | nil => rfl
  | cons form others =>
      cases others with
      | nil => rfl
      | cons other rest =>
          have both : ∀ candidate ∈ form :: other :: rest, candidate.Accepts extension := by
            intro candidate member
            rw [← accepting, List.mem_filter] at member
            exact of_decide_eq_true member.2
          rw [accepting] at apart
          have distinct := (List.pairwise_cons.mp apart).1 other List.mem_cons_self extension
          exact absurd (both other (by simp)) (distinct (both form (by simp)))

/-- A form is selected exactly when it is one of the opcode and takes the extension. -/
theorem selected?_eq_some_iff {opcode : UInt8} {extension : Extension}
    {form : Form OperandSize} :
    selected? opcode extension = some form ↔
      form ∈ forms opcode ∧ form.Accepts extension := by
  rw [← Option.mem_toList, ← filter_accepts_forms, List.mem_filter, decide_eq_true_eq]

/-- The selected form reads an instruction with its mnemonic. -/
theorem decode_of_selected {opcode : UInt8} {code : Code} {form : Form OperandSize}
    (selected : selected? opcode code.extension = some form) (full : Width)
    (registers : Registers) :
    ∃ instruction length,
      (form.resolve full).decode opcode registers code = .instruction instruction length ∧
        instruction.mnemonic = form.mnemonic := by
  have accepted := (selected?_eq_some_iff.mp selected).2
  rw [← Form.accepts_resolve full] at accepted
  rw [← Form.mnemonic_resolve full form]
  exact Form.decode_of_accepts opcode registers accepted

/-- Whatever the order of the forms of an opcode, the first that takes an extension is the
one that the extension selects. -/
theorem find?_of_perm {opcode : UInt8} {listed : List (Form OperandSize)}
    (reordered : listed.Perm (forms opcode)) (extension : Extension) :
    listed.find? (·.Accepts extension) = selected? opcode extension := by
  have filtered := reordered.filter (·.Accepts extension)
  rw [filter_accepts_forms] at filtered
  have accepting : listed.filter (·.Accepts extension) =
      (selected? opcode extension).toList := by
    cases chosen : selected? opcode extension with
    | none =>
        rw [chosen] at filtered
        exact filtered.eq_nil
    | some form =>
        rw [chosen] at filtered
        exact List.perm_singleton.mp filtered
  rw [← List.head?_filter, accepting]
  cases selected? opcode extension <;> rfl

/-! ## The listing by mnemonic -/

/-- A line of the listing: opcodes that stand for a mnemonic, with one extension or with
every one. -/
structure Line where
  mnemonic : Mnemonic
  opcodes : List Nat
  extension : Option Extension := none

/-- The opcode map, listed by mnemonic. -/
def listing : List Line :=
  [ { mnemonic := .mov
      opcodes :=
        [0xB0, 0xB1, 0xB2, 0xB3, 0xB4, 0xB5, 0xB6, 0xB7, 0xB8, 0xB9, 0xBA, 0xBB, 0xBC, 0xBD,
          0xBE, 0xBF, 0x88, 0x89, 0x8A, 0x8B, 0xA0, 0xA1, 0xA2, 0xA3] },
    { mnemonic := .mov, opcodes := [0xC6, 0xC7], extension := some 0 },
    { mnemonic := .add, opcodes := [0x04, 0x05, 0x00, 0x01, 0x02, 0x03] },
    { mnemonic := .add, opcodes := [0x80, 0x81, 0x83], extension := some 0 },
    { mnemonic := .sub, opcodes := [0x2C, 0x2D, 0x28, 0x29, 0x2A, 0x2B] },
    { mnemonic := .sub, opcodes := [0x80, 0x81, 0x83], extension := some 5 },
    { mnemonic := .cmp, opcodes := [0x3C, 0x3D, 0x38, 0x39, 0x3A, 0x3B] },
    { mnemonic := .cmp, opcodes := [0x80, 0x81, 0x83], extension := some 7 },
    { mnemonic := .and, opcodes := [0x24, 0x25, 0x20, 0x21, 0x22, 0x23] },
    { mnemonic := .and, opcodes := [0x80, 0x81, 0x83], extension := some 4 },
    { mnemonic := .or, opcodes := [0x0C, 0x0D, 0x08, 0x09, 0x0A, 0x0B] },
    { mnemonic := .or, opcodes := [0x80, 0x81, 0x83], extension := some 1 },
    { mnemonic := .xor, opcodes := [0x34, 0x35, 0x30, 0x31, 0x32, 0x33] },
    { mnemonic := .xor, opcodes := [0x80, 0x81, 0x83], extension := some 6 },
    { mnemonic := .test, opcodes := [0xA8, 0xA9, 0x84, 0x85] },
    { mnemonic := .test, opcodes := [0xF6, 0xF7], extension := some 0 },
    { mnemonic := .not, opcodes := [0xF6, 0xF7], extension := some 2 },
    { mnemonic := .neg, opcodes := [0xF6, 0xF7], extension := some 3 },
    { mnemonic := .jmp, opcodes := [0xEB, 0xE9] } ]

/-- Whether a line is about an opcode with an extension behind it. -/
def Line.Covers (line : Line) (opcode : UInt8) (extension : Extension) : Prop :=
  opcode.toNat ∈ line.opcodes ∧ (line.extension = none ∨ line.extension = some extension)

instance (line : Line) (opcode : UInt8) (extension : Extension) :
    Decidable (line.Covers opcode extension) :=
  inferInstanceAs (Decidable (_ ∧ _))

/-- Whether the listing has an opcode, with whatever extension. -/
def Listed (opcode : UInt8) : Prop :=
  ∃ line ∈ listing, opcode.toNat ∈ line.opcodes

instance (opcode : UInt8) : Decidable (Listed opcode) :=
  inferInstanceAs (Decidable (∃ line ∈ listing, opcode.toNat ∈ line.opcodes))

/-- Whether the listing gives a mnemonic to an opcode and an extension. -/
def Lists (opcode : UInt8) (extension : Extension) (mnemonic : Mnemonic) : Prop :=
  ∃ line ∈ listing, line.Covers opcode extension ∧ line.mnemonic = mnemonic

instance (opcode : UInt8) (extension : Extension) (mnemonic : Mnemonic) :
    Decidable (Lists opcode extension mnemonic) :=
  inferInstanceAs
    (Decidable (∃ line ∈ listing, line.Covers opcode extension ∧ line.mnemonic = mnemonic))

/-- The extensions that stand for nothing with an opcode that the listing has. -/
def Unassigned (opcode : UInt8) (extension : Extension) : Prop :=
  (opcode.toNat ∈ [0x80, 0x81, 0x83] ∧ extension ∈ [2, 3]) ∨
    (opcode.toNat ∈ [0xC6, 0xC7] ∧ extension ≠ 0) ∨
    (opcode.toNat ∈ [0xF6, 0xF7] ∧ extension ∈ [1, 4, 5, 6, 7])

instance (opcode : UInt8) (extension : Extension) : Decidable (Unassigned opcode extension) :=
  inferInstanceAs (Decidable (_ ∨ _ ∨ _))

/-- What holds of all numbers below 256 holds of all opcodes. -/
theorem forall_opcode {property : UInt8 → Prop}
    (every : ∀ code : Fin 256, property (UInt8.ofFin code)) (opcode : UInt8) :
    property opcode :=
  every opcode.toFin

/-- Every form has a line of the listing. -/
theorem exists_line_of_mem_forms {opcode : UInt8} {form : Form OperandSize}
    (member : form ∈ forms opcode) :
    ∃ line ∈ listing, opcode.toNat ∈ line.opcodes ∧ line.extension = form.extension? ∧
      line.mnemonic = form.mnemonic := by
  have every : ∀ opcode, ∀ form ∈ forms opcode,
      ∃ line ∈ listing, opcode.toNat ∈ line.opcodes ∧ line.extension = form.extension? ∧
        line.mnemonic = form.mnemonic := forall_opcode (by decide +kernel)
  exact every opcode form member

/-- Every opcode in a line of the listing has a form. -/
theorem exists_form_of_mem_listing {line : Line} {opcode : UInt8} (member : line ∈ listing)
    (named : opcode.toNat ∈ line.opcodes) :
    ∃ form ∈ forms opcode, form.extension? = line.extension ∧
      form.mnemonic = line.mnemonic := by
  have every : ∀ line ∈ listing, ∀ code ∈ line.opcodes,
      ∃ form ∈ forms (UInt8.ofNat code), form.extension? = line.extension ∧
        form.mnemonic = line.mnemonic := by decide +kernel
  have found := every line member opcode.toNat named
  rwa [UInt8.ofNat_toNat] at found

/-- The listing has exactly the opcodes that have a form. -/
theorem listed_iff (opcode : UInt8) : Listed opcode ↔ forms opcode ≠ [] := by
  constructor
  · rintro ⟨line, member, named⟩
    rcases exists_form_of_mem_listing member named with ⟨form, found, _⟩
    exact List.ne_nil_of_mem found
  · intro some
    rcases List.exists_mem_of_ne_nil _ some with ⟨form, found⟩
    rcases exists_line_of_mem_forms found with ⟨line, member, named, _⟩
    exact ⟨line, member, named⟩

/-- The listing gives a mnemonic exactly where it is that of the selected form. -/
theorem lists_iff (opcode : UInt8) (extension : Extension) (mnemonic : Mnemonic) :
    Lists opcode extension mnemonic ↔
      ∃ form, selected? opcode extension = some form ∧ form.mnemonic = mnemonic := by
  constructor
  · rintro ⟨line, member, ⟨named, covered⟩, rfl⟩
    rcases exists_form_of_mem_listing member named with ⟨form, found, asked, same⟩
    exact ⟨form, selected?_eq_some_iff.mpr ⟨found, by rwa [Form.Accepts, asked]⟩, same⟩
  · rintro ⟨form, selected, rfl⟩
    rcases selected?_eq_some_iff.mp selected with ⟨found, accepted⟩
    rcases exists_line_of_mem_forms found with ⟨line, member, named, asked, same⟩
    exact ⟨line, member, ⟨named, by rwa [asked]⟩, same⟩

/-- The unassigned extensions are those that select no form of an opcode that has some. -/
theorem unassigned_iff (opcode : UInt8) (extension : Extension) :
    Unassigned opcode extension ↔
      forms opcode ≠ [] ∧ selected? opcode extension = none := by
  have every : ∀ opcode extension, Unassigned opcode extension ↔
      (forms opcode).isEmpty = false ∧ (selected? opcode extension).isNone :=
    forall_opcode (by decide +kernel)
  rw [every, Option.isNone_iff_eq_none, ne_eq, ← List.isEmpty_iff, Bool.not_eq_true]

theorem not_listed_halt : ¬Listed halt := by
  decide

theorem listed_of_lists {opcode : UInt8} {extension : Extension} {mnemonic : Mnemonic}
    (lists : Lists opcode extension mnemonic) : Listed opcode := by
  rcases lists with ⟨line, member, ⟨named, _⟩, _⟩
  exact ⟨line, member, named⟩

theorem listed_of_unassigned {opcode : UInt8} {extension : Extension}
    (unassigned : Unassigned opcode extension) : Listed opcode :=
  (listed_iff opcode).mpr ((unassigned_iff opcode extension).mp unassigned).1

/-- The listing gives at most one mnemonic to an opcode and an extension. -/
theorem lists_unique {opcode : UInt8} {extension : Extension} {left right : Mnemonic}
    (first : Lists opcode extension left) (second : Lists opcode extension right) :
    left = right := by
  rcases (lists_iff opcode extension left).mp first with ⟨form, selected, rfl⟩
  rcases (lists_iff opcode extension right).mp second with ⟨other, same, rfl⟩
  rw [selected] at same
  rw [Option.some.inj same]

/-- The listing gives no mnemonic to an unassigned extension. -/
theorem not_lists_of_unassigned {opcode : UInt8} {extension : Extension}
    (unassigned : Unassigned opcode extension) (mnemonic : Mnemonic) :
    ¬Lists opcode extension mnemonic := by
  intro lists
  rcases (lists_iff opcode extension mnemonic).mp lists with ⟨form, selected, _⟩
  rw [((unassigned_iff opcode extension).mp unassigned).2] at selected
  cases selected

/-- A zero byte is an opcode that the listing has. -/
theorem listed_zero : Listed 0 := by
  decide

/-- Neither the opcode nor the extension is zero where the listing has no mnemonic. -/
theorem ne_zero_of_unassigned {opcode : UInt8} {extension : Extension}
    (unassigned : Unassigned opcode extension) : opcode ≠ 0 ∧ extension ≠ 0 := by
  constructor
  · intro zero
    subst zero
    rcases unassigned with ⟨named, _⟩ | ⟨named, _⟩ | ⟨named, _⟩
    all_goals exact absurd named (by decide)
  · intro zero
    subst zero
    rcases unassigned with ⟨_, among⟩ | ⟨_, other⟩ | ⟨_, among⟩
    · exact absurd among (by decide)
    · exact other rfl
    · exact absurd among (by decide)

end Ia32.OpcodeMap
