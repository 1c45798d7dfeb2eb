import RepeatedAddition.Operand
import RepeatedAddition.Product
import RepeatedAddition.Proofs.QuotedReading
import RepeatedAddition.Proofs.TimestampReading

/-!
# What is said of a refused text

Three texts of a command line are looked up or read, and refused if nothing is found: an operand,
the name of a method and the name of a format.  What is said then repeats the text, which may be
anything at all, so the message quotes it.

* `Refused`: a text is refused, with what is said of it.
* `Refused.wording`: a refusal consists of fixed words and of quotations of the refused text.
* `refused_text_reads_back`: a refusal is legible, and the refused text can be read back from it.
-/

namespace RepeatedAddition

open Quoted

/-- The names under which operands are given. -/
def operandNames : List Text := [Text.lit "x", Text.lit "y", Text.lit "max-depth"]

/-- A text is refused, with what is said of it: as an operand, as the name of a method, or as the
name of a format. -/
inductive Refused : Text → Text → Prop
  | operand {name value : Text} {e : Operand.Error} :
    name ∈ operandNames → Operand.parse name value = .error e → Refused value e.message
  | method {name : Text} : Method.ofName? name = none → Refused name (unknownMethodMessage name)
  | format {r : Report} {name unknown : Text} :
    r.write name = .error (.unknownFormat unknown) →
      Refused name (Report.WriteError.unknownFormat unknown).message

theorem Operand.eq_of_parse_eq_error {name value : Text} {e : Error}
    (h : parse name value = .error e) :
    e.name = name ∧ e.value = value := by
  rw [parse] at h
  split at h
  · cases h
  · obtain rfl := Except.error.inj h
    exact ⟨rfl, rfl⟩

theorem Report.eq_of_write_eq_unknownFormat {r : Report} {name unknown : Text}
    (h : r.write name = .error (.unknownFormat unknown)) : unknown = name := by
  obtain ⟨-, fault, -, he⟩ | ⟨-, he⟩ := write_eq_error_iff.mp h
  · cases he
  · exact WriteError.unknownFormat.inj he

/-- What is said of an operand quotes it twice. -/
theorem wording_operand {e : Operand.Error} (h : e.name ∈ operandNames) :
    Wording [e.value, e.value] e.message := by
  have hnames : (operandNames.all fun n => Text.Graphic n ∧ 34 ∉ n) = true := by decide
  have hname : Text.Graphic e.name ∧ 34 ∉ e.name := by simpa using List.all_eq_true.mp hnames _ h
  have hfault : Wording [] e.fault.message := by
    cases e.fault with
    | badSyntax => exact .words (by decide) (by decide)
    | outOfRange => exact .words (by decide) (by decide)
  have hinvalid : Wording [] (Text.lit "invalid ") := .words (by decide) (by decide)
  have hblank : Wording [] (Text.lit " ") := .words (by decide) (by decide)
  have hparsing : Wording [] (Text.lit ": strconv.ParseUint: parsing ") :=
    .words (by decide) (by decide)
  have hcolon : Wording [] (Text.lit ": ") := .words (by decide) (by decide)
  exact ((((((hinvalid.append (.words hname.1 hname.2)).append hblank).append
    (.quotation e.value)).append hparsing).append (.quotation e.value)).append hcolon).append hfault

/-- **A refusal consists of fixed words and of quotations of the refused text**, at least one. -/
theorem Refused.wording {s message : Text} (h : Refused s message) :
    ∃ n, Wording (List.replicate (n + 1) s) message := by
  cases h with
  | @operand name value e hname hparse =>
    obtain ⟨rfl, rfl⟩ := Operand.eq_of_parse_eq_error hparse
    exact ⟨1, wording_operand hname⟩
  | method => exact ⟨0, Wording.append (.words (by decide) (by decide)) (.quotation s)⟩
  | format hwrite =>
    obtain rfl := Report.eq_of_write_eq_unknownFormat hwrite
    exact ⟨0, Wording.append (.words (by decide) (by decide)) (.quotation _)⟩

/-- **A refused text can be read back from what is said of it.**  Whatever its bytes are, what is
said is a text of characters without any control character, and each quotation in it reads as the
refused text.  So the same is never said of two refused texts. -/
theorem refused_text_reads_back {s message : Text} (h : Refused s message) :
    Text.Legible message ∧
    (∃ n, quotations? message = some (List.replicate (n + 1) s)) ∧
    ∀ s', Refused s' message → s' = s := by
  obtain ⟨n, hwording⟩ := h.wording
  refine ⟨hwording.legible, ⟨n, hwording.quotations?⟩, fun s' h' => ?_⟩
  obtain ⟨n', hwording'⟩ := h'.wording
  have hsame : s' :: List.replicate n' s' = s :: List.replicate n s :=
    Option.some.inj (hwording'.quotations?.symm.trans hwording.quotations?)
  exact (List.cons.inj hsame).1

/-- An escape character, a stray byte, the replacement character, a quotation mark, the spelling of
the stray byte, and a space without width. -/
def treacherous : Text := [0x1B, 0xFF, 0xEF, 0xBF, 0xBD, 34, 92, 120, 102, 102, 0xE2, 0x80, 0x8B]

/-- What is said of it as the name of a method. -/
def treacherousRefusal : Text := Text.lit "unknown method \"\\x1b\\xff\uFFFD\\\"\\\\xff\\u200b\""

theorem refused_treacherous :
    Refused treacherous treacherousRefusal ∧ Text.Legible treacherousRefusal ∧
    (∃ n, quotations? treacherousRefusal = some (List.replicate (n + 1) treacherous)) ∧
    ∀ s', Refused s' treacherousRefusal → s' = treacherous := by
  have hmessage : unknownMethodMessage treacherous = treacherousRefusal := by decide +kernel
  have hrefused : Refused treacherous treacherousRefusal := hmessage ▸ .method (by decide)
  exact ⟨hrefused, refused_text_reads_back hrefused⟩

end RepeatedAddition
