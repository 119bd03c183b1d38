import ShellSale.Proofs.Json.Grammar
import ShellSale.Proofs.Json.Writing
import ShellSale.Proofs.Plan.Formats

/-!
## Which texts are plans

A text that is read as a plan is one value of JSON between blanks. The readers of all parts of a
plan are strict, and what they skip is skipped by its grammar; so a text with an error of syntax in
any place, also in a value that nobody looks at, is no plan.

* `SalePlan.strict`: the reader of plans takes one value.
* `SalePlan.read_only_documents` is the main result.
-/

namespace ShellSale

open Json Json.Reader

/-! ### Readers -/

theorem AccountName.strict : AccountName.reader.IsStrict :=
  strict_choice _

theorem Race.strict : Race.reader.IsStrict :=
  strict_choice _

theorem Career.strict : Career.reader.IsStrict :=
  strict_choice _

theorem Rarity.strict : Rarity.reader.IsStrict :=
  strict_choice _

theorem Funding.strict : Funding.layout.reader.IsStrict :=
  Layout.strict_reader <| by
    simpa [layout, Field.of] using ⟨AccountName.strict, strict_word128⟩

theorem CollectionPlan.strict : CollectionPlan.layout.reader.IsStrict :=
  Layout.strict_reader <| by
    simpa [layout, Field.of] using ⟨strict_text, strict_word32⟩

theorem RarePurchase.strict : RarePurchase.layout.reader.IsStrict :=
  Layout.strict_reader <| by
    simpa [layout, Field.of] using
      ⟨AccountName.strict, Rarity.strict, Race.strict, Career.strict⟩

theorem ShellChoice.strict : ShellChoice.layout.reader.IsStrict :=
  Layout.strict_reader <| by
    simpa [layout, Field.of] using ⟨AccountName.strict, Race.strict, Career.strict⟩

theorem Inventory.strict : Inventory.layout.reader.IsStrict :=
  Layout.strict_reader <| by
    simpa [layout, Field.of] using strict_word32

theorem Holding.strict : Holding.layout.reader.IsStrict :=
  Layout.strict_reader <| by
    simpa [layout, Field.of] using ⟨AccountName.strict, strict_list strict_word32⟩

theorem Feeding.strict : Feeding.layout.reader.IsStrict :=
  Layout.strict_reader <| by
    simpa [layout, Field.of] using ⟨AccountName.strict, strict_word32⟩

theorem Collections.strict : Collections.layout.reader.IsStrict :=
  Layout.strict_reader <| by
    simpa [layout, Field.of] using CollectionPlan.strict

theorem IncubationPlan.strict : IncubationPlan.layout.reader.IsStrict :=
  Layout.strict_reader <| by
    simpa [layout, Field.of] using ⟨strict_optional strict_word32, strict_list AccountName.strict,
      strict_list Holding.strict, strict_list (strict_list Feeding.strict),
      strict_list strict_word64⟩

theorem SalePlan.strict : SalePlan.layout.reader.IsStrict :=
  Layout.strict_reader <| by
    have choices := strict_list ShellChoice.strict
    have ids := strict_list strict_word32
    simpa [layout, Field.of] using ⟨strict_list Funding.strict, strict_flag, Collections.strict,
      strict_text, strict_list (strict_pair Race.strict strict_text), strict_word128,
      strict_list AccountName.strict, strict_list RarePurchase.strict, choices, Inventory.strict,
      choices, ids, choices, ids, IncubationPlan.strict⟩

/-! ### Texts and files -/

/-- The bytes of a text are the text. -/
theorem fromUTF8?_bytes (text : String) :
    String.fromUTF8? ⟨text.toUTF8.data.toList.toArray⟩ = some text := by
  simpa [String.fromUTF8?] using ⟨text.isValidUTF8, rfl⟩

namespace SalePlan

/-- What is read as a plan is one value between blanks, which writes the plan. -/
theorem exists_document {text : String} {p : SalePlan} (h : read text = .ok p) :
    ∃ before t after, text = Tree.document before t after ∧ schema.format.writes p t := by
  obtain ⟨before, t, after, rfl⟩ := isDocument_of_readText strict h
  exact ⟨before, t, after, rfl, (read_eq_ok_iff before t after p).mp h⟩

/-- **Only documents are plans.** A text is read as a plan just if it is one value of JSON between
blanks and the value writes the plan. Every other text is refused, and a file with it is, by the
path of the file and with the error of the text; so a file with a plan holds such a text. -/
theorem read_only_documents :
    (∀ text p, read text = .ok p ↔
      ∃ before t after, text = Tree.document before t after ∧ schema.format.writes p t) ∧
    (∀ text, ¬IsDocument text → ∃ e, read text = .error e ∧
      ∀ path content, String.fromUTF8? ⟨content.toArray⟩ = some text →
        load path (.bytes content) = .error (.invalid path e)) ∧
    ∀ path file p, load path file = .ok p → ∃ content text, file = .bytes content ∧
      String.fromUTF8? ⟨content.toArray⟩ = some text ∧ IsDocument text ∧ read text = .ok p := by
  refine ⟨fun text p => ⟨exists_document, ?_⟩, fun text damaged => ?_, fun path file p loaded => ?_⟩
  · rintro ⟨before, t, after, rfl, written⟩
    exact (read_eq_ok_iff before t after p).mpr written
  · cases result : read text with
    | ok p => exact absurd (isDocument_of_readText strict result) damaged
    | error e =>
      refine ⟨e, rfl, fun path content decoded => ?_⟩
      rw [load]
      simp only [decoded, result]
  · cases file with
    | absent => cases loaded
    | directory => cases loaded
    | bytes content =>
      rw [load] at loaded
      split at loaded
      · cases loaded
      · rename_i text decoded
        split at loaded
        · rename_i p' result
          obtain rfl := Except.ok.inj loaded
          exact ⟨content, text, rfl, decoded, isDocument_of_readText strict result, result⟩
        · cases loaded

theorem read_only_documents_skipped :
    ¬IsDocument "\x7b\"x\":[null,1e]\x7d" ∧
    (∃ e, load "plan.json" (.bytes "\x7b\"x\":[null,1e]\x7d".toUTF8.data.toList) =
      .error (.invalid "plan.json" e)) ∧
    read " \x7b\"x\":[null]\x7d\n" = .ok {} := by
  have damaged : ¬IsDocument "\x7b\"x\":[null,1e]\x7d" := by decide
  obtain ⟨reads, refuses, -⟩ := read_only_documents
  obtain ⟨e, -, refused⟩ := refuses _ damaged
  refine ⟨damaged, ⟨e, refused "plan.json" _ ?_⟩, (reads _ _).mpr ?_⟩
  · exact fromUTF8?_bytes _
  · refine ⟨⟨[' '], List.forall_mem_singleton.mpr rfl⟩,
      .object .none [.of "x" (.list .none [.of .null])],
      ⟨['\n'], List.forall_mem_singleton.mpr rfl⟩, by decide, ?_⟩
    refine (Schema.writes_object_iff .none).mpr ⟨⟨?_, ?_, ?_⟩, ?_, ?_⟩ <;> simp [schema]

end SalePlan

end ShellSale
