import Mathlib.Algebra.GroupWithZero.Nat
import MessageCatalog.Proofs.CommandLine.Printing
import MessageCatalog.Proofs.Catalog.TextOrder

namespace MessageCatalog

open Traversal

namespace Listing

open Table

variable {raw : RawMessages} {defaultLocale : Locale} {l : Listing} {row : ListingRow}

def ofRaw (defaultLocale : Locale) (raw : RawMessages) : Listing :=
  .ofReport defaultLocale ⟨(kept raw).keyCounts, failures raw.entries⟩

def rowOf (e : Locale × SortedMap String String) : ListingRow :=
  ⟨e.1, (keptOf e.1 e.2).size, (failuresOf e.1 e.2.entries).length⟩

theorem rows_ofRaw (defaultLocale : Locale) (raw : RawMessages) :
    (ofRaw defaultLocale raw).rows = raw.entries.map rowOf := by
  simp only [ofRaw, ofReport, keyCounts, kept, SortedMap.map, List.map_map]
  apply List.map_congr_left
  intro e he
  simp only [Function.comp_apply, rowOf, filter_failures, RawMessages.texts_of_mem he]

theorem locales_ofRaw (defaultLocale : Locale) (raw : RawMessages) :
    (ofRaw defaultLocale raw).rows.map ListingRow.locale = raw.keys := by
  rw [rows_ofRaw, List.map_map]
  rfl

theorem keys_add_skipped_ofRaw (h : row ∈ (ofRaw defaultLocale raw).rows) :
    row.keys + row.skipped = (raw.texts row.locale).size := by
  rw [rows_ofRaw] at h
  obtain ⟨e, he, rfl⟩ := List.mem_map.mp h
  rw [rowOf, size_add_failuresOf, RawMessages.texts_of_mem he]

theorem sum_skipped_ofRaw (defaultLocale : Locale) (raw : RawMessages) :
    ((ofRaw defaultLocale raw).rows.map ListingRow.skipped).sum = (failures raw.entries).length := by
  rw [rows_ofRaw, List.map_map, failures, List.length_flatMap]
  rfl

theorem map_skipped_printed (l : Listing) :
    l.printed.map PrintedRow.skipped = l.rows.map ListingRow.skipped := by
  rw [printed, List.map_map]
  rfl

theorem map_locale_printed (defaultLocale : Locale) (raw : RawMessages) :
    (ofRaw defaultLocale raw).printed.map PrintedRow.locale = raw.keys.map Locale.text := by
  rw [← locales_ofRaw defaultLocale, printed, List.map_map, List.map_map]
  rfl

theorem exists_skipped_iff (defaultLocale : Locale) (raw : RawMessages) :
    (∃ row ∈ (ofRaw defaultLocale raw).printed, 0 < row.skipped) ↔ failures raw.entries ≠ [] := by
  rw [← List.length_pos_iff, ← sum_skipped_ofRaw defaultLocale, ← map_skipped_printed,
    List.sum_pos_iff_exists_pos_nat]
  simp

theorem isMarked_iff {row : PrintedRow} (h : row ∈ l.printed) :
    row.isMarked = true ↔ row.locale = l.defaultLocale.text := by
  obtain ⟨r, -, rfl⟩ := List.mem_map.mp h
  rw [decide_eq_true_iff]
  exact ⟨congrArg Locale.text, Locale.eq_of_text⟩

theorem countP_isMarked (l : Listing) :
    l.printed.countP PrintedRow.isMarked =
      (l.printed.map PrintedRow.locale).count l.defaultLocale.text := by
  rw [List.count, List.countP_map]
  apply List.countP_congr
  intro row hrow
  rw [isMarked_iff hrow, Function.comp_apply, beq_iff_eq]

end Listing

/-- What rows say of a manifest and of the bundle that its files make. -/
structure PrintedRow.Conserves (m : Manifest) (raw : RawMessages) (defaultLocale : Locale)
    (rows : List PrintedRow) (warnings : List String) : Prop where
  nodup : (rows.map PrintedRow.locale).Nodup
  locales : ∀ t, t ∈ rows.map PrintedRow.locale ↔ ∃ k : Locale, t = k.text ∧ ∃ e ∈ m.entries, e.locale = .ok k
  keys : ∀ row ∈ rows, ∃ k : Locale, row.locale = k.text ∧ row.keys + row.skipped = (raw.texts k).size
  warnings : (rows.map PrintedRow.skipped).sum = warnings.length
  marks : ∀ row ∈ rows, row.isMarked = true ↔ row.locale = defaultLocale.text
  marked : (∃ e ∈ m.entries, e.locale = .ok defaultLocale) → rows.countP PrintedRow.isMarked = 1
  unmarked : (¬∃ e ∈ m.entries, e.locale = .ok defaultLocale) → rows.countP PrintedRow.isMarked = 0

theorem Listing.conserves_ofRaw {raw : RawMessages} {d : Directory} {m : Manifest} {reads : List Reading}
    (hreads : List.Forall₂ (Bundle.IsRead d) m.entries reads) (hmerge : RawMessages.IsMerge reads raw)
    (defaultLocale : Locale) :
    PrintedRow.Conserves m raw defaultLocale (ofRaw defaultLocale raw).printed
      (ofRaw defaultLocale raw).warnings := by
  have hnodup : ((ofRaw defaultLocale raw).printed.map PrintedRow.locale).Nodup := by
    rw [map_locale_printed]
    exact raw.nodup_keys.map fun _ _ => Locale.eq_of_text
  have hlocales : ∀ k : Locale, k.text ∈ (ofRaw defaultLocale raw).printed.map PrintedRow.locale ↔
      ∃ e ∈ m.entries, e.locale = .ok k := by
    intro k
    rw [map_locale_printed, List.mem_map_of_injective fun _ _ => Locale.eq_of_text, hmerge.locales,
      Bundle.mem_locales_iff hreads]
  exact {
    nodup := hnodup
    locales := fun t => by
      constructor
      · intro ht
        obtain ⟨k, -, rfl⟩ := List.mem_map.mp (map_locale_printed defaultLocale raw ▸ ht)
        exact ⟨k, rfl, (hlocales k).mp ht⟩
      · rintro ⟨k, rfl, he⟩
        exact (hlocales k).mpr he
    keys := fun row hrow => by
      obtain ⟨r, hr, rfl⟩ := List.mem_map.mp hrow
      exact ⟨r.locale, rfl, keys_add_skipped_ofRaw hr⟩
    warnings := by
      rw [map_skipped_printed, sum_skipped_ofRaw, ofRaw, ofReport, List.length_map]
    marks := fun _ => isMarked_iff
    marked := fun h => by
      rw [countP_isMarked]
      exact List.count_eq_one_of_mem hnodup ((hlocales _).mpr h)
    unmarked := fun h => by
      rw [countP_isMarked]
      exact List.count_eq_zero.mpr fun hmem => h ((hlocales _).mp hmem) }

namespace CommandLine

variable {source : Source} {d : Directory} {raw : RawMessages} {chain : Chain} {report : LoadReport}

theorem map_load (h : Bundle.load d = .ok raw) (source : Source) :
    (load source d).map (·.2) =
      ((Table.compile (if source.strictLoad then .strict else .lenient) raw).mapError .pattern).map
        fun built => ⟨built.1.keyCounts, built.2⟩ := by
  have hbundle (r : Registry) (m : Catalog) : r.loadBundle 0 m d = r.load 0 m raw := by
    rw [Registry.loadBundle, h]
    rfl
  simp only [load, hbundle, Registry.load, Catalog.new]
  cases Table.compile (if source.strictLoad then .strict else .lenient) raw <;> rfl

theorem run_locales (h : load source d = .ok (chain, report)) (color : ColorWhen) (asJson : Bool) :
    runCommand color (.locales source asJson) d =
      listing color (.ofReport source.defaultLocale report) asJson := by
  rw [runCommand, Command.source, h]

theorem code_locales_iff (color : ColorWhen) (source : Source) (asJson : Bool) (d : Directory) :
    (runCommand color (.locales source asJson) d).code = 70 ↔ ∃ p, load source d = .error p := by
  cases h : load source d with
  | error p =>
    have hrun : runCommand color (.locales source asJson) d = .badBundle source.path := by
      rw [runCommand, Command.source, h]
    exact iff_of_true (congrArg Outcome.code hrun) ⟨p, rfl⟩
  | ok loaded =>
    rw [run_locales h]
    simp [listing, Outcome.success]

theorem exists_load_strict_error_iff (h : Bundle.load d = .ok raw) (hstrict : source.strictLoad = true) :
    (∃ p, load source d = .error p) ↔ Table.failures raw.entries ≠ [] := by
  have hreport := map_load h source
  rw [hstrict, if_pos rfl] at hreport
  rw [← Table.exists_compile_strict_error_iff]
  cases hc : Table.compile .strict raw with
  | error f =>
    rw [hc] at hreport
    exact iff_of_true ⟨_, map_eq_error_iff.mp hreport⟩ ⟨f, rfl⟩
  | ok built =>
    rw [hc] at hreport
    obtain ⟨loaded, hloaded, -⟩ := map_eq_ok_iff.mp hreport
    simp [hloaded]

theorem ofReport_eq_ofRaw (hraw : Bundle.load d = .ok raw) (hlenient : source.strictLoad = false)
    (h : load source d = .ok (chain, report)) :
    Listing.ofReport source.defaultLocale report = .ofRaw source.defaultLocale raw := by
  have hreport := map_load hraw source
  rw [h, hlenient, if_neg Bool.false_ne_true, Table.compile_lenient] at hreport
  cases hreport
  rfl

/-- The command succeeds; its table and its document hold the rows, and after these the warnings. -/
structure Prints (source : Source) (d : Directory) (rows : List PrintedRow) (warnings : List String) :
    Prop where
  succeeds : ∀ color asJson, (runCommand color (.locales source asJson) d).code = 0 ∧
    (runCommand color (.locales source asJson) d).stderr = ""
  table : ∀ color, PrintedRow.ofText (runCommand color (.locales source false) d).stdout =
    some (rows, Listing.warningLines (paint color yellow "Skipped patterns:") warnings)
  bullets : (∀ w ∈ warnings, '\n' ∉ w.toList) → ∀ color,
    (Listing.warningLines (paint color yellow "Skipped patterns:") warnings).countP Listing.isBullet =
      warnings.length
  document : ∀ color, (Json.Document.ofText? (runCommand color (.locales source true) d).stdout).bind
    Json.Document.listing? = some (rows, warnings)

theorem prints_listing {l : Listing}
    (h : ∀ color asJson, runCommand color (.locales source asJson) d = listing color l asJson) :
    Prints source d l.printed l.warnings where
  succeeds color asJson := by
    rw [h]
    exact ⟨rfl, rfl⟩
  table color := by
    rw [h]
    exact Listing.ofText_text (paint color yellow) l
  bullets hwarnings color := by
    refine Listing.countP_warningLines ?_ hwarnings
    cases color <;> decide
  document color := by
    have hread := Json.Document.ofText?_pretty l.document
    rw [h, listing, if_pos rfl, Outcome.success, hread, Option.bind_some, Listing.listing?_document]

/-- A bundle that is loaded leniently is listed, as a table and as a document, with one row for each locale of
its manifest, the default one marked, and each key of the files and each warning is counted once. Strictly,
the command fails exactly if a row counts a pattern that was skipped. -/
theorem listing_conserves (hlenient : source.strictLoad = false) (h : load source d = .ok (chain, report)) :
    ∃ m reads raw rows, Bundle.manifest d = .ok m ∧ List.Forall₂ (Bundle.IsRead d) m.entries reads ∧
      Bundle.load d = .ok raw ∧ (∀ k, (raw.texts k).size = (RawMessages.keysOf k reads).card) ∧
      PrintedRow.Conserves m raw source.defaultLocale rows (report.skipped.map PatternFailure.warning) ∧
      Prints source d rows (report.skipped.map PatternFailure.warning) ∧
      ∀ color asJson,
        (runCommand color (.locales { source with strictLoad := true } asJson) d).code = 70 ↔
          ∃ row ∈ rows, 0 < row.skipped := by
  obtain ⟨raw, hraw, -⟩ := exists_registry_of_load h
  obtain ⟨m, hm⟩ := Bundle.exists_manifest_of_load hraw
  obtain ⟨reads, hreads, hmerge⟩ := (Bundle.load_eq_ok_iff hm).mp hraw
  have hlisting := ofReport_eq_ofRaw hraw hlenient h
  have hconserves := Listing.conserves_ofRaw hreads hmerge source.defaultLocale
  have hskipped := Listing.exists_skipped_iff source.defaultLocale raw
  rw [← hlisting] at hconserves hskipped
  refine ⟨m, reads, raw, _, hm, hreads, hraw, hmerge.size_texts, hconserves,
    prints_listing (run_locales h), fun color asJson => ?_⟩
  rw [code_locales_iff, exists_load_strict_error_iff hraw rfl, hskipped]

theorem listing_conserves_variants :
    ∃ chain report rows, load variants Bundle.variants = .ok (chain, report) ∧
      Prints variants Bundle.variants rows (report.skipped.map PatternFailure.warning) ∧
      report.skipped.length = 3 ∧ rows.countP PrintedRow.isMarked = 1 ∧
      (runCommand .never (.locales { variants with strictLoad := true } true) Bundle.variants).code = 70 := by
  obtain ⟨⟨chain, report⟩, h, hcells⟩ := rows_variants
  obtain ⟨m, reads, raw, rows, -, -, -, -, hconserves, hprints, hstrict⟩ := listing_conserves rfl h
  have hrows : rows = (Listing.ofReport .germany report).printed := by
    have htable := hprints.table .never
    rw [run_locales h] at htable
    have hread := Listing.ofText_text (paint .never yellow) (.ofReport .germany report)
    exact congrArg Prod.fst (Option.some_inj.mp (htable.symm.trans hread))
  have hprinted : rows.map (fun row => (row.locale, row.keys, row.skipped)) =
      [("de", 0, 0), ("de-419", 1, 1), ("de-DE", 1, 1), ("deu", 0, 1)] := by
    rw [hrows, ← hcells, Listing.printed, List.map_map]
    rfl
  have hgermany : ("de-DE", 1, 1) ∈ rows.map fun row => (row.locale, row.keys, row.skipped) := by
    rw [hprinted]
    decide
  obtain ⟨row, hrow, hcells⟩ := List.mem_map.mp hgermany
  have htext : row.locale = Locale.germany.text := congrArg (·.1) hcells
  have hskipped : row.skipped = 1 := congrArg (·.2.2) hcells
  refine ⟨chain, report, rows, h, hprints, ?_, hconserves.marked ?_, (hstrict .never true).mpr ?_⟩
  · have hsum := congrArg (fun rows => (rows.map (·.2.2)).sum) hprinted
    rw [List.map_map] at hsum
    have hwarnings := hconserves.warnings.symm.trans hsum
    rw [List.length_map] at hwarnings
    exact hwarnings
  · obtain ⟨k, hk, he⟩ := (hconserves.locales _).mp (List.mem_map_of_mem hrow)
    obtain rfl : k = .germany := Locale.eq_of_text (hk.symm.trans htext)
    exact he
  · exact ⟨row, hrow, hskipped ▸ Nat.one_pos⟩

end CommandLine

end MessageCatalog
