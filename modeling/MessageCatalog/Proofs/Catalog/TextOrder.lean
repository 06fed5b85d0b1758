import MessageCatalog.CommandLine.Run
import MessageCatalog.Proofs.Bundle.Merge
import MessageCatalog.Proofs.Catalog.Steps
import MessageCatalog.Proofs.Locale.TextOrder

namespace MessageCatalog

open Traversal

theorem Table.ascend_keyCounts (t : Table) : Text.Ascend (t.keyCounts.map fun c => c.1.text) := by
  rw [keyCounts, List.map_map]
  have h := t.patterns.ascend_keys
  rw [SortedMap.keys, List.map_map] at h
  exact h

theorem Registry.ascend_of_load {r r' : Registry} {handle : Nat} {m : Catalog} {raw : RawMessages}
    {report : LoadReport} (h : r.load handle m raw = .ok (r', report)) :
    Text.Ascend (report.keyCounts.map fun c => c.1.text) := by
  obtain ⟨t, skipped, -, -, rfl⟩ := load_eq_ok_iff.mp h
  exact t.ascend_keyCounts

theorem Session.ascend_of_ask {s : Session} {name : String} {ls : List Locale}
    (h : s.ask (.locales name) = .ok (.locales ls)) : Text.Ascend (ls.map Locale.text) := by
  rw [ask, bind_eq_ok_iff] at h
  obtain ⟨m, -, hm⟩ := h
  cases hm
  exact m.table.patterns.ascend_keys

def Bundle.variants : Directory :=
  listing
    "[[\"deu\",null,\"b\"],[\"de\",\"DE\",\"a\"],[\"de\",null,\"c\"],[\"de\",\"419\",\"a\"],[\"DE\",\"de\",\"d\"]]"
    [⟨["a"], "hi=Hallo\nby=\x7b0".toUTF8⟩, ⟨["b"], "hi=\x7b".toUTF8⟩, ⟨["c"], "".toUTF8⟩,
      ⟨["d"], "hi=Servus".toUTF8⟩]

namespace CommandLine

variable {source : Source} {d : Directory} {chain : Chain} {report : LoadReport}

theorem exists_registry_of_load (h : load source d = .ok (chain, report)) :
    ∃ raw, Bundle.load d = .ok raw ∧
      ∃ (r r' : Registry) (m : Catalog), r.load 0 m raw = .ok (r', report) := by
  simp only [load, bind_eq_ok_iff, Registry.loadBundle_eq_ok_iff] at h
  obtain ⟨⟨r', report'⟩, ⟨raw, hraw, hload⟩, heq⟩ := h
  cases heq
  exact ⟨raw, hraw, _, r', _, hload⟩

def variants : Source :=
  ⟨"variants", .germany, false⟩

theorem rows_variants :
    ∃ loaded, load variants Bundle.variants = .ok loaded ∧
      (Listing.ofReport .germany loaded.2).rows.map (fun row => (row.locale.text, row.keys, row.skipped)) =
        [("de", 0, 0), ("de-419", 1, 1), ("de-DE", 1, 1), ("deu", 0, 1)] :=
  exists_ok_of_toOption (by decide +kernel)

end CommandLine

theorem listed_in_text_order :
    (∀ a b : Locale, (KeyOrder.precedes a b = true ↔ Locale.IsBefore a b) ∧
      (Locale.IsBefore a b ↔ Text.bytes a.text < Text.bytes b.text)) ∧
    (∀ (s : Session) name ls, s.ask (.locales name) = .ok (.locales ls) → Text.Ascend (ls.map Locale.text)) ∧
    (∀ (r r' : Registry) handle m raw report, r.load handle m raw = .ok (r', report) →
      Text.Ascend (report.keyCounts.map fun c => c.1.text)) ∧
    ∀ source d chain report, CommandLine.load source d = .ok (chain, report) →
      Text.Ascend ((Listing.ofReport source.defaultLocale report).rows.map fun row => row.locale.text) := by
  refine ⟨fun a b => ⟨Locale.isBefore_iff.symm, ?_⟩, ?_, ?_, ?_⟩
  · rw [Locale.isBefore_iff, Locale.bytes_text_lt_iff]
  · intro s name ls h
    exact Session.ascend_of_ask h
  · intro r r' handle m raw report h
    exact Registry.ascend_of_load h
  · intro source d chain report h
    obtain ⟨raw, -, r, r', m, hload⟩ := CommandLine.exists_registry_of_load h
    rw [Listing.ofReport, List.map_map]
    exact Registry.ascend_of_load hload

def Session.variants : Session :=
  .run [.change (.create "catalog" {}), .change (.loadBundle "catalog" Bundle.variants)]

theorem Session.locales_variants :
    ∃ m, variants.catalog "catalog" = .ok m ∧
      m.table.locales.map Locale.text = ["de", "de-419", "de-DE", "deu"] :=
  exists_ok_of_toOption (by decide +kernel)

theorem listed_in_text_order_variants :
    ∃ ls chain report, Session.variants.ask (.locales "catalog") = .ok (.locales ls) ∧
      ls.map Locale.text = ["de", "de-419", "de-DE", "deu"] ∧ Text.Ascend (ls.map Locale.text) ∧
      CommandLine.load CommandLine.variants Bundle.variants = .ok (chain, report) ∧
      Text.Ascend (report.keyCounts.map fun c => c.1.text) ∧
      Text.Ascend ((Listing.ofReport .germany report).rows.map fun row => row.locale.text) := by
  obtain ⟨-, hlocales, hcounts, hlisting⟩ := listed_in_text_order
  obtain ⟨m, hm, htexts⟩ := Session.locales_variants
  obtain ⟨⟨chain, report⟩, h, -⟩ := CommandLine.rows_variants
  obtain ⟨raw, -, r, r', n, hload⟩ := CommandLine.exists_registry_of_load h
  have hask : Session.variants.ask (.locales "catalog") = .ok (.locales m.table.locales) := by
    rw [Session.ask, hm]
    rfl
  exact ⟨_, chain, report, hask, htexts, hlocales _ _ _ hask, h, hcounts _ _ _ _ _ _ hload,
    hlisting _ _ _ _ h⟩

end MessageCatalog
