import LeastModel.Proofs.Reports
import LeastModel.Proofs.StorableAnswers
import LeastModel.Proofs.WorldPaths

/-!
# Reports of stored answers

A command that evaluates a program and stores the answers prints a report before
it stores them. A later command that loads the answers finds the directory made
and the store in it, reads back answers that are the same up to the order of
their tuples, and prints a report that does not depend on this order.

## Main statement

`Command.World.load_repeats_report`: after a command has stored its answers,
loading prints its report again, byte by byte, and listing prints the queries of
its program. Tables may be laid out in any way that depends on their cells alone.
-/

namespace LeastModel

/-! ## Saved answers are read -/

namespace Store

variable {digest : Digest} (s : Store) (hash : Digest) {answers : List (Answer digest)}
  (hcount : answers.length ≤ 2 ^ 32)
  (hanswers : ∀ a ∈ answers, a.relation.WellFormed ∧ Storable a)

include hcount hanswers

theorem load_save :
    ∃ loaded : List (Answer digest), (s.save hash none answers).2.load = .ok loaded ∧
      List.Forall₂ Answer.SameAs loaded answers := by
  have hwell := fun a ha => (hanswers a ha).1
  have hstorable := fun a ha => (hanswers a ha).2
  refine ⟨restoredFrom hash 0 answers, ?_, restoredFrom_sameAs hash 0 hwell⟩
  rw [load, answerEntries_save s hash hcount hwell]
  exact loadFrom_scanFrom hash 0 hwell hstorable []

theorem list_save :
    (s.save hash none answers).2.list = .ok (answers.map (·.query.render ++ "?")) := by
  have hwell := fun a ha => (hanswers a ha).1
  have hstorable := fun a ha => (hanswers a ha).2
  rw [list, answerEntries_save s hash hcount hwell]
  exact listFrom_scanFrom hash 0 hstorable

end Store

namespace Command

/-- A task that evaluates a program, shows the answers and nothing else, and
stores them. -/
structure Task.Stores (t : Task) : Prop where
  load : t.load = false
  list : t.list = false
  dump : t.dump = false
  graph : t.settings.graph = false
  store : t.settings.store ≠ []

namespace World

variable {libraries : Libraries}

/-! ## The steps of a command that stores -/

/-- The text of the program that a name stands for: the input, or a file. -/
def programText (w : World) (file : Bytes) : Except Bytes Bytes :=
  if file = Host.inputName then w.input else w.readFile file

theorem gives_readProgram {w w' : World} {file source : Bytes} :
    Gives ((host libraries).readProgram file) w source w' ↔
      w.programText file = .ok source ∧ w = w' := by
  rw [Host.readProgram, programText]
  split
  · rw [gives_orElseFail]
    exact Prod.ext_iff
  · rw [gives_orElseFail]
    exact Prod.ext_iff

theorem report_eq_forM (coloured : Bool) (style : AnswerStyle) (answers : List (Answer digest)) :
    (host libraries).report coloured style answers =
      (Report.pieces libraries.layout coloured style (answers.map Report.entryOf)).forM
        (host libraries).printOrFail :=
  Report.write_eq_forM _ _ _ _ _

/-- Saving keeps what the store becomes where the path leads, and prints nothing. -/
theorem of_gives_saveAnswers {w w' : World} {directory : Bytes} {answers : List (Answer digest)}
    (h : Gives ((host libraries).saveAnswers directory answers) w () w') :
    (∃ before : Store, w'.Holds directory (before.save Xxh64.digest none answers).2) ∧
      w'.output = w.output := by
  obtain ⟨before, opened, hopen, h⟩ := gives_bind.mp h
  obtain ⟨⟨⟩, kept, hkeep, h⟩ := gives_bind.mp h
  obtain ⟨⟨⟩, _, houtcome, hlog⟩ := gives_bind.mp h
  obtain ⟨notes, rfl⟩ := exists_notes_of_log hlog
  obtain ⟨-, rfl⟩ := gives_orElseFail_pure.mp houtcome
  obtain ⟨-, rfl⟩ := Prod.ext_iff.mp (gives_orElseFail.mp hkeep)
  obtain ⟨hholds, houtput⟩ := holds_keepStore (gives_orElseFail.mp hopen)
    (before.save Xxh64.digest none answers).2
  exact ⟨⟨before, hholds.of_sameTree ⟨rfl, rfl, rfl⟩⟩, houtput⟩

/-- Evaluating reports the answers and then saves them. -/
theorem of_gives_evaluate {w w' : World} {coloured : Bool} {t : Task} {p : Program}
    (hgraph : t.settings.graph = false) (hstore : t.settings.store ≠ [])
    (h : Gives ((host libraries).evaluate coloured t p) w () w') :
    ∃ result : Result digest, Quiet.evaluate t.settings.options p = .ok result ∧
      ∃ left notes, Gives ((host libraries).saveAnswers t.settings.store result.answers)
        (World.printed { w with notes }
          (Report.pieces libraries.layout coloured t.style (result.answers.map Report.entryOf))
          left) () w' := by
  rcases hwatched : (p.evaluateObserved t.settings.options : Run (Result digest)).run.run
    (.new t.settings.verbose) with ⟨outcome, observer⟩
  have hquiet : outcome = Quiet.evaluate t.settings.options p := by
    rw [← p.outcome_evaluateObserved t.settings.options (.new t.settings.verbose), Run.outcome,
      hwatched]
  rw [Host.evaluate, hwatched] at h
  obtain ⟨⟨⟩, logged, hlog, h⟩ := gives_bind.mp h
  obtain ⟨notes, rfl⟩ := exists_notes_of_forM hlog
  obtain ⟨result, _, hpure, h⟩ := gives_bind.mp h
  obtain ⟨rfl, rfl⟩ := gives_orElseFail_pure.mp hpure
  rw [if_neg (by simp [hgraph])] at h
  obtain ⟨⟨⟩, reported, hreport, hsave⟩ := gives_bind.mp h
  rw [if_pos (by simpa using hstore)] at hsave
  rw [report_eq_forM] at hreport
  obtain ⟨left, rfl⟩ := exists_printed_of_forM hreport
  exact ⟨result, hquiet.symm, left, notes, hsave⟩

/-- A command that stores reports answers of the program and keeps them. -/
theorem of_gives_run {coloured : Bool} {t : Task} (ht : t.Stores) {w w' : World} {source : Bytes}
    (htext : w.programText t.file = .ok source) {p : Program}
    (hparse : Program.parse source = .ok p) (h : Gives ((host libraries).run coloured t) w () w') :
    ∃ result : Result digest, Quiet.evaluate t.settings.options p = .ok result ∧
      w'.output.written = w.output.written ++
        (Report.pieces libraries.layout coloured t.style (result.answers.map Report.entryOf)).flatten ∧
      ∃ before : Store,
        w'.Holds t.settings.store (before.save Xxh64.digest none result.answers).2 := by
  rw [Host.run, if_neg (by simp [ht.load, ht.list])] at h
  obtain ⟨text, _, hread, h⟩ := gives_bind.mp h
  obtain ⟨htext', rfl⟩ := gives_readProgram.mp hread
  cases htext.symm.trans htext'
  obtain ⟨program, _, hprogram, h⟩ := gives_bind.mp h
  obtain ⟨hparse', rfl⟩ := gives_orElseFail_pure.mp hprogram
  cases hparse.symm.trans hparse'
  rw [if_neg (by simp [ht.dump])] at h
  obtain ⟨result, hresult, left, notes, hsave⟩ := of_gives_evaluate ht.graph ht.store h
  obtain ⟨hholds, houtput⟩ := of_gives_saveAnswers hsave
  exact ⟨result, hresult, houtput ▸ written_printed _ _ _, hholds⟩

/-! ## Commands that read a store -/

/-- Where there is a store, it is opened and read. -/
theorem gives_showStored {w w' : World} {coloured : Bool} {t : Task} {s : Store}
    (hholds : w.Holds t.settings.store s)
    (h : Gives (if t.list then do
        let queries ← orElseFail .storeFailed (pure s.list)
        queries.forM fun query => (host libraries).printIfPossible (query ++ "\n")
      else do
        let answers ← orElseFail .storeFailed (pure s.load)
        (host libraries).report coloured t.style answers) w () w') :
    Gives ((host libraries).showStored coloured t) w () w' := by
  have hexists : ((host libraries).storeExists t.settings.store).run w = (true, w) :=
    Prod.ext hholds.storeExists rfl
  refine gives_bind.mpr ⟨true, w, gives_lift.mpr hexists, ?_⟩
  exact gives_bind.mpr ⟨s, w, gives_orElseFail.mpr hholds.openStore, h⟩

/-- A store whose answers can be loaded is shown. -/
theorem gives_run_load {w : World} (hw : w.output.left = none) (coloured : Bool) {t : Task}
    (hload : t.load = true) (hlist : t.list = false) {s : Store}
    (hholds : w.Holds t.settings.store s) {answers : List (Answer digest)}
    (hanswers : s.load = .ok answers) :
    Gives ((host libraries).run coloured t) w ()
      (w.printed (Report.pieces libraries.layout coloured t.style (answers.map Report.entryOf)) none) := by
  have hpiece : ∀ w piece, w.output.left = none →
      Gives ((host libraries).printOrFail piece) w () (w.printed [piece] none) :=
    fun _ piece hw => (gives_print_of_unlimited hw piece).1
  have hprint := gives_forM hpiece
    (Report.pieces libraries.layout coloured t.style (answers.map Report.entryOf)) hw
  rw [List.map_id'] at hprint
  rw [Host.run, if_pos (by simp [hload])]
  refine gives_showStored hholds ?_
  rw [if_neg (by simp [hlist])]
  refine gives_bind.mpr ⟨answers, w, gives_orElseFail_pure.mpr ⟨hanswers, rfl⟩, ?_⟩
  rwa [report_eq_forM]

/-- A store whose queries can be listed is listed. -/
theorem gives_run_list {w : World} (hw : w.output.left = none) (coloured : Bool) {t : Task}
    (hlist : t.list = true) {s : Store} (hholds : w.Holds t.settings.store s)
    {queries : List Bytes} (hqueries : s.list = .ok queries) :
    Gives ((host libraries).run coloured t) w ()
      (w.printed (queries.map (· ++ ("\n" : Bytes))) none) := by
  rw [Host.run, if_pos (by simp [hlist])]
  refine gives_showStored hholds ?_
  rw [if_pos hlist]
  refine gives_bind.mpr ⟨queries, w, gives_orElseFail_pure.mpr ⟨hqueries, rfl⟩, ?_⟩
  exact gives_forM (fun w query hw => (gives_print_of_unlimited hw _).2) queries hw

/-! ## One command after another -/

/-- With the libraries the command succeeds, and the text is what it prints. -/
def Prints (libraries : Libraries) (w : World) (coloured : Bool) (t : Task) (text : Bytes) : Prop :=
  ∃ w', Gives ((host libraries).run coloured t) w () w' ∧
    w'.output.written = w.output.written ++ text

/-- What a command has printed that has stored answers is printed again by one
that loads them, and one that lists them prints the queries in order. Input,
output and log may be others by then. Whatever is in memory is far shorter than
`2 ^ 62` bytes; the bound keeps all lengths within 64 bits, as the store writes
them. -/
theorem load_repeats_report {coloured : Bool} {t : Task} (ht : t.Stores) {w w₁ : World}
    {source : Bytes} (htext : w.programText t.file = .ok source) (hsource : source.length < 2 ^ 62)
    {p : Program} (hparse : Program.parse source = .ok p) (hqueries : p.queries.length ≤ 2 ^ 32)
    (hrun : Gives ((host libraries).run coloured t) w () w₁) :
    ∃ report, w₁.output.written = w.output.written ++ report ∧
      ∀ w₂, w₁.SameTree w₂ → w₂.output.left = none →
        ∀ t₂ : Task, t₂.settings.store = t.settings.store →
          (t₂.load = true → t₂.list = false → t₂.style = t.style →
            Prints libraries w₂ coloured t₂ report) ∧
          (t₂.list = true → Prints libraries w₂ coloured t₂
            (p.queries.flatMap fun query => query.render ++ ("?\n" : Bytes))) := by
  obtain ⟨result, hresult, hwritten, before, hholds⟩ := of_gives_run ht htext hparse hrun
  obtain ⟨hmap, hanswers⟩ := Program.storable_of_evaluate hparse hsource hresult
  have hcount : result.answers.length ≤ 2 ^ 32 := by
    rwa [← hmap, List.length_map] at hqueries
  refine ⟨_, hwritten, ?_⟩
  intro w₂ htree hleft t₂ hstore
  have hholds₂ := hstore ▸ hholds.of_sameTree htree
  constructor
  · intro hload hlist hstyle
    obtain ⟨loaded, hloaded, hsame⟩ := Store.load_save before Xxh64.digest hcount hanswers
    refine ⟨_, gives_run_load hleft coloured hload hlist hholds₂ hloaded, ?_⟩
    rw [written_printed, hstyle, Report.pieces_eq_of_sameAs hsame]
  · intro hlist
    have hlisted := Store.list_save before Xxh64.digest hcount hanswers
    refine ⟨_, gives_run_list hleft coloured hlist hholds₂ hlisted, ?_⟩
    have hline : ∀ query : Atom, query.render ++ ("?" : Bytes) ++ ("\n" : Bytes) =
        query.render ++ ("?\n" : Bytes) := fun query => List.append_assoc _ _ _
    rw [written_printed, ← hmap, List.flatMap_map, List.map_map, ← List.flatMap_def]
    simp only [Function.comp_def, hline]

/-- Two facts and a rule; the queries have two answers, none, and the empty one. -/
def pairs : Program where
  schemes := [⟨"e", [.identifier "x", .identifier "y"]⟩, ⟨"t", [.identifier "x"]⟩]
  facts := [⟨"e", [.constant "'b'", .constant "'c'"]⟩, ⟨"e", [.constant "'a'", .constant "'c'"]⟩]
  rules := [⟨⟨"t", [.identifier "y"]⟩, [⟨"e", [.identifier "x", .identifier "y"]⟩]⟩]
  queries := [⟨"e", [.identifier "x", .constant "'c'"]⟩, ⟨"t", [.constant "'a'"]⟩,
    ⟨"t", [.constant "'c'"]⟩]

/-- A world with the program in a file, and with a store that holds something else. -/
def usedWorld : World where
  files := [({ names := ["pairs"] }, pairs.source)]
  stores := [({ names := ["kept"] }, Store.empty.put (Store.headerKey 5) [1])]

/-- The task to store the answers to the program. -/
def storePairs : Task where
  settings := { store := "kept" }
  style := .table
  file := "pairs"
  dump := false
  list := false
  load := false

theorem load_repeats_report_pairs :
    let w₁ := (((host .standard).run false storePairs).run.run usedWorld).2
    storePairs.Stores ∧ usedWorld.programText storePairs.file = .ok pairs.source ∧
      pairs.source.length < 2 ^ 62 ∧ Program.parse pairs.source = .ok pairs ∧
      pairs.queries.length ≤ 2 ^ 32 ∧
      Gives ((host .standard).run false storePairs) usedWorld () w₁ ∧
      ∃ report, w₁.output.written = report ∧
        Prints .standard w₁ false { storePairs with load := true } report ∧
        Prints .standard w₁ false { storePairs with list := true }
          "e(x,'c')?\nt('a')?\nt('c')?\n" := by
  intro w₁
  have hstores : storePairs.Stores := ⟨rfl, rfl, rfl, rfl, by decide⟩
  have htext : usedWorld.programText storePairs.file = .ok pairs.source := by decide +kernel
  have hlength : pairs.source.length < 2 ^ 62 := by decide +kernel
  have hparse : Program.parse pairs.source = .ok pairs := by decide +kernel
  have hqueries : pairs.queries.length ≤ 2 ^ 32 := by decide
  have hrun : Gives ((host .standard).run false storePairs) usedWorld () w₁ :=
    Prod.ext (by decide +kernel) rfl
  have hleft : w₁.output.left = none := by decide +kernel
  obtain ⟨report, hwritten, hlater⟩ :=
    load_repeats_report hstores htext hlength hparse hqueries hrun
  have hload := (hlater w₁ (.refl w₁) hleft { storePairs with load := true } rfl).1 rfl rfl rfl
  have hlist := (hlater w₁ (.refl w₁) hleft { storePairs with list := true } rfl).2 rfl
  exact ⟨hstores, htext, hlength, hparse, hqueries, hrun, report, hwritten, hload, hlist⟩

end World

end Command

end LeastModel
