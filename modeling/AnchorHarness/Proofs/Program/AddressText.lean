import AnchorHarness.Proofs.Numerals
import AnchorHarness.Proofs.Program.Acceptance

/-!
# The spelling of an address

An address is kept as thirty-two bytes and written out again from them. Its text is the one that was
read, since digits that are written in another base and back are the same again, with the zeros in
front of them. The number of digits follows from that of the bytes, so no address is too long to be
read.
-/

namespace AnchorHarness.Program

open Rust (SourceFile MacroCall)

/-! ### Digits -/

theorem digitValue?_eq_some {c : Char} {v : Nat} (h : digitValue? c = some v) :
    v < 58 ∧ digitOfValue v = c := by
  obtain ⟨inside, same, -⟩ := List.findIdx?_eq_some_iff_getElem.mp h
  have size : alphabet.length = 58 := by decide
  refine ⟨size ▸ inside, ?_⟩
  rw [digitOfValue, List.getElem?_eq_getElem inside, Option.getD_some]
  exact beq_iff_eq.mp same

theorem digitOfValue_mem (v : Nat) : digitOfValue v ∈ alphabet := by
  rw [digitOfValue]
  cases found : alphabet[v]? with
  | none => decide
  | some c => exact List.mem_of_getElem? found

theorem mem_alphabet_of_digitValue? {c : Char} {v : Nat} (h : digitValue? c = some v) :
    c ∈ alphabet := (digitValue?_eq_some h).2 ▸ digitOfValue_mem v

theorem utf8Size_of_mem_alphabet {c : Char} (h : c ∈ alphabet) : c.utf8Size = 1 := by
  have single : alphabet.all (fun c => c.utf8Size = 1) = true := by decide
  exact of_decide_eq_true (List.all_eq_true.mp single c h)

theorem digitValues?_eq_some {cs : List Char} {values : List Nat}
    (h : digitValues? cs = some values) :
    List.Forall₂ (fun c v => digitValue? c = some v) cs values := by
  induction cs generalizing values with
  | nil =>
    cases h
    exact .nil
  | cons c cs ih =>
    rw [digitValues?, List.mapM_cons] at h
    obtain ⟨v, hv, h⟩ := Option.bind_eq_some_iff.mp h
    obtain ⟨vs, hvs, h⟩ := Option.bind_eq_some_iff.mp h
    cases h
    exact .cons hv (ih hvs)

theorem values_lt {cs : List Char} {values : List Nat} (h : digitValues? cs = some values) :
    ∀ v ∈ values, v < 58 := by
  have pairs := digitValues?_eq_some h
  clear h
  induction pairs with
  | nil => exact nofun
  | cons hv _ ih => exact List.forall_mem_cons.mpr ⟨(digitValue?_eq_some hv).1, ih⟩

theorem map_digitOfValue {cs : List Char} {values : List Nat} (h : digitValues? cs = some values) :
    values.map digitOfValue = cs := by
  have pairs := digitValues?_eq_some h
  clear h
  induction pairs with
  | nil => rfl
  | cons hv _ ih => rw [List.map_cons, (digitValue?_eq_some hv).2, ih]

theorem utf8ByteSize_ofList {cs : List Char} (single : ∀ c ∈ cs, c.utf8Size = 1) :
    (String.ofList cs).utf8ByteSize = cs.length := by
  induction cs with
  | nil => rfl
  | cons c cs ih =>
    obtain ⟨hc, hcs⟩ := List.forall_mem_cons.mp single
    rw [String.ofList_cons, String.utf8ByteSize_append, String.utf8ByteSize_singleton, hc, ih hcs,
      List.length_cons, Nat.add_comm]

theorem utf8ByteSize_eq_length {text : String} {values : List Nat}
    (h : digitValues? text.toList = some values) :
    text.utf8ByteSize = values.length ∧ text.length = values.length := by
  have pairs := digitValues?_eq_some h
  have single : ∀ c ∈ text.toList, c.utf8Size = 1 := by
    intro c hc
    obtain ⟨place, inside, rfl⟩ := List.getElem_of_mem hc
    have hv := pairs.get inside (pairs.length_eq ▸ inside)
    exact utf8Size_of_mem_alphabet (mem_alphabet_of_digitValue? hv)
  have bytes := utf8ByteSize_ofList single
  rw [String.ofList_toList, pairs.length_eq] at bytes
  exact ⟨bytes, by rw [← String.length_toList, pairs.length_eq]⟩

/-! ### Addresses -/

/-- Digits of thirty-two bytes are at most forty-four. -/
theorem length_values_le {values : List Nat} (below : ∀ v ∈ values, v < 58)
    (size : (bytesOfValues values).length = 32) : values.length ≤ longestText := by
  have room : (254 + 2) ^ 32 ≤ (56 + 2) ^ (32 + 12) := by norm_num
  exact Text.length_le_of_recode (by omega) below room size

theorem Address.parse_eq_ok (text : String) (a : Address) :
    Address.parse text = .ok a ↔
      ∃ values, digitValues? text.toList = some values ∧ a.bytes = bytesOfValues values := by
  constructor
  · intro h
    unfold Address.parse at h
    split at h
    · cases h
    · split at h
      · cases h
      · next values read =>
        split at h
        · cases h
          exact ⟨values, read, rfl⟩
        · cases h
  · rintro ⟨values, read, bytes⟩
    have size : (bytesOfValues values).length = 32 := bytes ▸ a.size
    have short := length_values_le (values_lt read) size
    have admitted : ¬longestText < text.utf8ByteSize := by
      rw [(utf8ByteSize_eq_length read).1]
      omega
    unfold Address.parse
    rw [if_neg admitted, read]
    simp only [dif_pos size, Except.ok.injEq]
    obtain ⟨own, _⟩ := a
    cases bytes
    rfl

/-- The text of an address is the one that it was read from. -/
theorem Address.text_eq {text : String} {a : Address} (h : Address.parse text = .ok a) :
    a.text = text := by
  obtain ⟨values, read, bytes⟩ := (Address.parse_eq_ok text a).mp h
  have back : valuesOfBytes a.bytes = values := by
    rw [bytes]
    exact Text.recode_recode 56 254 (values_lt read)
  rw [Address.text, back, map_digitOfValue read, String.ofList_toList]

theorem Address.length_bounds {text : String} {a : Address} (h : Address.parse text = .ok a) :
    32 ≤ text.length ∧ text.length ≤ longestText := by
  obtain ⟨values, read, bytes⟩ := (Address.parse_eq_ok text a).mp h
  have below := values_lt read
  have size : (bytesOfValues values).length = 32 := bytes ▸ a.size
  have fewer : (bytesOfValues values).length ≤ values.length :=
    Text.length_recode_le (by omega) below
  rw [(utf8ByteSize_eq_length read).2]
  exact ⟨size ▸ fewer, length_values_le below size⟩

/-- The address of a program is the declared one, letter for letter. Addresses that are spelled
differently are of different bytes, and no text of thirty-two bytes is refused for its length. -/
theorem address_verbatim (code : SourceFile) (entry : Option SourceFile) (name : Option String)
    (a : Analysis) (literal : String) (accepted : analyze code entry name = .ok a)
    (declared : firstLiteral code entry = some literal) :
    a.address = some literal ∧ 32 ≤ literal.length ∧ literal.length ≤ 44 ∧
      (∃ found, Address.parse literal = .ok found ∧ ∀ other found', literal ≠ other →
        Address.parse other = .ok found' → found'.bytes ≠ found.bytes) ∧
      ∀ text values, digitValues? text.toList = some values →
        (bytesOfValues values).length = 32 → text.utf8ByteSize ≤ longestText ∧
          ∃ found, Address.parse text = .ok found ∧ found.bytes = bytesOfValues values := by
  obtain ⟨body, conditions⟩ := (analyze_eq_ok code entry name a).mp accepted
  have addressed := conditions.addressed
  rw [Addressed, declared] at addressed
  obtain ⟨found, parsed, address⟩ := addressed
  have bounds := Address.length_bounds parsed
  refine ⟨?_, bounds.1, bounds.2, ⟨found, parsed, ?_⟩, ?_⟩
  · rw [address, Address.text_eq parsed]
  · intro other found' different parsed' same
    have spelled : found.text = found'.text := by rw [Address.text, Address.text, same]
    rw [Address.text_eq parsed, Address.text_eq parsed'] at spelled
    exact different spelled
  · intro text values read size
    have short := length_values_le (values_lt read) size
    rw [(utf8ByteSize_eq_length read).1]
    exact ⟨short, ⟨bytesOfValues values, size⟩, (Address.parse_eq_ok text _).mpr ⟨values, read, rfl⟩,
      rfl⟩

/-! ### A declared address -/

def ledgerAddress : String := "Fg6PaFpoGXkYsidMpWTK6W2BeZ7FEfcYkg476zPFsLnS"

def ledgerSource : SourceFile where
  items := [.attribute "program", .node (.module "ledger" [])]
  code := [.call ⟨"declare_id", "declare_id!(\"Fg6PaFpoGXkYsidMpWTK6W2BeZ7FEfcYkg476zPFsLnS\")"⟩]

theorem exists_parse_ledgerAddress : ∃ found, Address.parse ledgerAddress = .ok found := by
  obtain ⟨values, read⟩ : ∃ values, digitValues? ledgerAddress.toList = some values := ⟨_, rfl⟩
  have size : (bytesOfValues values).length = 32 := by
    cases read
    cbv
  exact ⟨⟨bytesOfValues values, size⟩, (Address.parse_eq_ok _ _).mpr ⟨values, read, rfl⟩⟩

theorem address_verbatim_ledgerSource :
    ∃ a, analyze ledgerSource none none = .ok a ∧
      firstLiteral ledgerSource none = some ledgerAddress ∧ a.address = some ledgerAddress := by
  have declared : firstLiteral ledgerSource none = some ledgerAddress := by decide
  obtain ⟨found, parsed⟩ := exists_parse_ledgerAddress
  have conditions : Accepted ledgerSource none none [] ⟨"ledger", [], [], some found.text⟩ :=
    { opened := ⟨"ledger", rfl, rfl⟩
      handled := .nil
      resolved := .nil
      addressed := by
        rw [Addressed, declared]
        exact ⟨found, parsed, rfl⟩ }
  have accepted := (analyze_eq_ok ledgerSource none none _).mpr ⟨[], conditions⟩
  exact ⟨_, accepted, declared, (address_verbatim _ _ _ _ _ accepted declared).1⟩

end AnchorHarness.Program
