import ArtifactLayout.CommandLine.Run
import ArtifactLayout.Proofs.Corpus.FileNames
import ArtifactLayout.Proofs.Corpus.Folder
import ArtifactLayout.Proofs.Corpus.Passes

/-! # Three ways to a corpus

A corpus is collected in memory, printed, or written to files, by a loop each. All three are compared
with what calls for the next artifact give, up to the first that fails (`Generator.yield`).
-/

namespace ArtifactLayout
set_option autoImplicit false

open CommandLine

/-- The artifacts of calls made one after the other, the failure that ended them, and the generator that
they leave. -/
structure Yield (σ : Type) where
  artifacts : List (List UInt8)
  failure : Option Exhausted
  after : Generator σ

namespace Yield
variable {σ : Type}

/-- All artifacts, if no call failed. -/
def collected (y : Yield σ) : Except Exhausted (List (List UInt8)) :=
  match y.failure with
  | none => .ok y.artifacts
  | some e => .error e

/-- What is printed of the artifacts and of the failure. -/
def printed (y : Yield σ) : Outcome where
  lines := y.artifacts.map Text.hexLine
  report := y.failure.map fun e => errorReport e.message []
  ending := if y.failure.isNone then .success else .failure

/-- The files of the artifacts, numbered from a given number on. -/
def filesFrom (y : Yield σ) (place : Nat → String) (index : Nat) : List (String × List UInt8) :=
  (y.artifacts.zipIdx index).map fun entry => (place entry.2, entry.1)

end Yield

namespace Generator
variable {σ : Type} [RandomSource σ]

/-- Calls for the next artifact, a number of them unless one fails before. -/
def yield : Nat → Generator σ → Yield σ
  | 0, g => ⟨[], none, g⟩
  | n + 1, g =>
    match g.nextArtifact with
    | (.error e, g) => ⟨[], some e, g⟩
    | (.ok bytes, g) =>
      let rest := yield n g
      { rest with artifacts := bytes :: rest.artifacts }

theorem yield_of_error {g after : Generator σ} {e : Exhausted}
    (h : g.nextArtifact = (.error e, after)) (n : Nat) : yield (n + 1) g = ⟨[], some e, after⟩ := by
  rw [yield, h]

theorem yield_of_ok {g after : Generator σ} {bytes : List UInt8}
    (h : g.nextArtifact = (.ok bytes, after)) (n : Nat) :
    yield (n + 1) g =
      { yield n after with artifacts := bytes :: (yield n after).artifacts } := by
  rw [yield, h]

/-! ## How many artifacts, by which passes -/

theorem length_yield (n : Nat) (g : Generator σ) : (yield n g).artifacts.length ≤ n ∧
    ((yield n g).failure = none ↔ (yield n g).artifacts.length = n) := by
  induction n generalizing g with
  | zero => simp [yield]
  | succ n ih =>
    rcases hrun : g.nextArtifact with ⟨e | bytes, after⟩
    · simp [yield_of_error hrun]
    · obtain ⟨hle, hiff⟩ := ih after
      rw [yield_of_ok hrun]
      simp [hle, hiff]

theorem ran_nextArtifact (g : Generator σ) :
    ∃ outcomes, Ran g outcomes g.nextArtifact.2 ∧
      (treesOf outcomes).map Field.toBytes = g.nextArtifact.1.toOption.toList := by
  obtain ⟨outcomes, hran, htrees⟩ := ran_next g
  refine ⟨outcomes, hran, ?_⟩
  rw [htrees, nextArtifact]
  rcases g.next with ⟨_ | root, after⟩ <;> rfl

theorem ran_yield (n : Nat) (g : Generator σ) :
    ∃ outcomes, Ran g outcomes (yield n g).after ∧
      (treesOf outcomes).map Field.toBytes = (yield n g).artifacts := by
  induction n generalizing g with
  | zero => exact ⟨[], .refl g, rfl⟩
  | succ n ih =>
    obtain ⟨outcomes, hran, htrees⟩ := ran_nextArtifact g
    rcases hrun : g.nextArtifact with ⟨e | bytes, after⟩
    · rw [hrun] at hran htrees
      rw [yield_of_error hrun]
      exact ⟨outcomes, hran, htrees⟩
    · rw [hrun] at hran htrees
      obtain ⟨others, hran', htrees'⟩ := ih after
      rw [yield_of_ok hrun]
      refine ⟨outcomes ++ others, hran.trans hran', ?_⟩
      rw [treesOf_append, List.map_append, htrees, htrees']
      rfl

/-! ## The loops -/

theorem collect_eq (n : Nat) (g : Generator σ) :
    collect n g = ((yield n g).collected, (yield n g).after) := by
  induction n generalizing g with
  | zero => rfl
  | succ n ih =>
    rcases hrun : g.nextArtifact with ⟨e | bytes, after⟩
    · rw [collect, hrun, yield_of_error hrun]
      rfl
    · rw [collect, hrun, yield_of_ok hrun]
      dsimp only
      rw [ih after, Yield.collected, Yield.collected]
      cases (yield n after).failure <;> rfl

theorem printFrom_eq (n : Nat) (g : Generator σ) :
    printFrom false n g =
      (((yield n g).artifacts.map Text.hexLine, (yield n g).failure), (yield n g).after) := by
  induction n generalizing g with
  | zero => rfl
  | succ n ih =>
    rcases hrun : g.next with ⟨e | root, after⟩
    · have hartifact : g.nextArtifact = (.error e, after) := by rw [nextArtifact, hrun]; rfl
      rw [printFrom, hrun, yield_of_error hartifact]
      rfl
    · have hartifact : g.nextArtifact = (.ok root.toBytes, after) := by rw [nextArtifact, hrun]; rfl
      rw [printFrom, hrun, yield_of_ok hartifact]
      dsimp only
      rw [ih after]
      rfl

/-- Where nothing is refused, the artifacts are put in their places one after the other. -/
theorem putFrom_eq {α ρ : Type} (place : Nat → String)
    (put : String → List UInt8 → StateM α (Except ρ Unit)) (write : α → String × List UInt8 → α)
    (hput : ∀ name content s, put name content s = (.ok (), write s (name, content)))
    (index n : Nat) (g : Generator σ) (s : α) :
    putFrom place put index n g s =
      ((match (yield n g).failure with
        | none => .ok (((yield n g).filesFrom place index).map Prod.fst)
        | some e => .error (.inl e), (yield n g).after),
        ((yield n g).filesFrom place index).foldl write s) := by
  induction n generalizing index g s with
  | zero => rfl
  | succ n ih =>
    rcases hrun : g.nextArtifact with ⟨e | bytes, after⟩
    · rw [putFrom, hrun, yield_of_error hrun]
      rfl
    · rw [putFrom, hrun, yield_of_ok hrun]
      simp only [bind, StateT.bind, hput, ih]
      cases (yield n after).failure <;> rfl

/-- What is noted of a corpus is the artifacts under their names, and how many passes failed. -/
theorem write_eq (g : Generator σ) :
    let y := yield g.settings.count g
    g.write = (⟨y.filesFrom g.settings.fileName 0,
      y.collected.map fun _ => y.after.discarded - g.discarded⟩, y.after) := by
  dsimp only
  rw [write, putFrom_eq g.settings.fileName note (fun files file => file :: files) fun _ _ _ => rfl,
    Yield.collected]
  dsimp only
  rw [List.foldl_flip_cons_eq_append', List.append_nil, List.reverse_reverse]
  cases (yield g.settings.count g).failure <;> rfl

theorem writeCorpus_apply (directory : String) (g : Generator σ) (folder : Folder) :
    let y := yield g.settings.count g
    let files := y.filesFrom (placeIn directory g.settings) 0
    (writeCorpus directory g : StateM Folder _) folder =
      if maxListed < g.settings.count then ((.error .overflow, g), folder)
      else ((match y.failure with
        | none => .ok ⟨files.map Prod.fst, y.after.discarded - g.discarded⟩
        | some e => .error (.exhausted e), y.after), folder.putAll files) := by
  have hput := putFrom_eq (placeIn directory g.settings) Files.write
    (fun (folder : Folder) file => folder.put file.1 file.2) (fun _ _ _ => rfl) 0 g.settings.count g
    folder
  dsimp only
  rw [writeCorpus]
  simp only [bind, StateT.bind, Folder.makeDirectories_apply]
  by_cases hroom : maxListed < g.settings.count
  · rw [if_pos hroom, if_pos hroom]
    rfl
  · rw [if_neg hroom, if_neg hroom, StateT.bind, hput]
    cases (yield g.settings.count g).failure <;> rfl

end Generator

/-! ## The files -/

theorem CommandLine.placeIn_inj {directory : String} {settings : Settings} {i j : Nat}
    (h : placeIn directory settings i = placeIn directory settings j) : i = j :=
  Settings.fileName_inj <| Path.inside_inj
    ((Path.isRooted_fileName settings i).trans (Path.isRooted_fileName settings j).symm) h

namespace Yield
variable {σ : Type}

theorem map_fst_filesFrom (y : Yield σ) (place : Nat → String) :
    (y.filesFrom place 0).map Prod.fst = (List.range y.artifacts.length).map place := by
  rw [filesFrom, List.map_map, List.range_eq_range', ← List.zipIdx_map_snd 0 y.artifacts,
    List.map_map]
  rfl

theorem nodup_filesFrom (y : Yield σ) {place : Nat → String}
    (hplace : ∀ i j, place i = place j → i = j) : ((y.filesFrom place 0).map Prod.fst).Nodup := by
  rw [map_fst_filesFrom]
  exact List.Pairwise.map place (fun i j hne h => hne (hplace i j h)) List.nodup_range

theorem mem_filesFrom (y : Yield σ) (place : Nat → String) (path : String) (content : List UInt8) :
    (path, content) ∈ y.filesFrom place 0 ↔ ∃ i, path = place i ∧ y.artifacts[i]? = some content := by
  simp only [filesFrom, List.mem_map, Prod.mk.injEq, Prod.exists, List.mem_zipIdx_iff_getElem?]
  constructor
  · rintro ⟨_, i, hi, rfl, rfl⟩
    exact ⟨i, rfl, hi⟩
  · rintro ⟨i, rfl, hi⟩
    exact ⟨content, i, hi, rfl, rfl⟩

end Yield

namespace Generator

/-- The three ways to a corpus make the same passes and leave the same generator. If all calls for an
artifact succeed, they give the same artifacts; otherwise they end with the same failure, after the
same artifacts were printed or written. Files are written to a fresh directory, each to a place of its
own; a corpus of more files than can be listed is not begun. -/
theorem corpora_agree (g : Generator ChaCha8) (script directory : String) :
    let count := g.settings.count
    let made := g.yield count
    let place := placeIn directory g.settings
    let written := (writeCorpus directory g : StateM Folder _) .empty
    made.artifacts.length ≤ count ∧ (made.failure = none ↔ made.artifacts.length = count) ∧
    (∀ i j, place i = place j → i = j) ∧
    ∃ outcomes, g.Ran outcomes made.after ∧
      (treesOf outcomes).map Field.toBytes = made.artifacts ∧
      g.corpus = (made.collected, made.after) ∧
      print ⟨script, g.settings, false⟩ g = (made.printed, made.after) ∧
      (∀ folder text program,
        (readScript script : StateM Folder _) folder = (.ok text, folder) →
        Script.parse .standard text = .ok program → g = start program g.settings →
        g.settings.outputDir = none →
          (perform ⟨script, g.settings, false⟩ : StateM Folder _) folder = (made.printed, folder)) ∧
      (count ≤ maxListed →
        written.1 = (match made.failure with
          | none => .ok ⟨(List.range count).map place, failuresIn outcomes⟩
          | some e => .error (.exhausted e), made.after) ∧
        ∀ path content, written.2.content? path = some content ↔
          ∃ i, path = place i ∧ made.artifacts[i]? = some content) ∧
      (maxListed < count → written = ((.error .overflow, g), .empty)) := by
  dsimp only
  obtain ⟨hle, hall⟩ := length_yield g.settings.count g
  obtain ⟨outcomes, hran, htrees⟩ := ran_yield g.settings.count g
  have hprint : print ⟨script, g.settings, false⟩ g =
      ((g.yield g.settings.count).printed, (g.yield g.settings.count).after) := by
    rw [print, printFrom_eq]
    rfl
  have hplaces : ∀ i j, placeIn directory g.settings i = placeIn directory g.settings j → i = j :=
    fun i j => placeIn_inj
  refine ⟨hle, hall, hplaces, outcomes, hran, htrees, collect_eq _ g, hprint, ?_, ?_, ?_⟩
  · intro folder text program hread hparse hg houtput
    rw [perform]
    simp only [bind, StateT.bind, hread, hparse, houtput]
    rw [← hg, hprint]
    rfl
  · intro hroom
    -- the files are as many as were made, and these are as many as were asked for if none failed
    have hnames := (g.yield g.settings.count).map_fst_filesFrom (placeIn directory g.settings)
    have hnodup := (g.yield g.settings.count).nodup_filesFrom hplaces
    rw [writeCorpus_apply, if_neg (Nat.not_lt.mpr hroom)]
    refine ⟨?_, fun path content => ?_⟩
    · dsimp only
      rw [hnames, hran.discarded_eq, Nat.add_sub_cancel_left]
      cases hfailure : (g.yield g.settings.count).failure with
      | none => rw [hall.mp hfailure]
      | some e => rfl
    · rw [Folder.content?_putAll_empty hnodup, Yield.mem_filesFrom]
  · intro hroom
    rw [writeCorpus_apply, if_pos hroom]

/-- One pass in two fails: the checksum of what comes later cannot be filled. -/
def halfScript : String := "choice { block<1> = 7; block<4> = crc32(late); } block<1> late;"

def pairSettings : Settings := { Settings.default with seed := 2, count := 2 }

/-- The hypotheses can be met: a script is read whose passes fail now and then, and two artifacts of it are
collected, printed, and written to a file each. -/
theorem corpora_agree_sample :
    let folder := Folder.empty.put "script.fz" halfScript.toUTF8.toList
    ∃ program, Script.parse .standard halfScript = .ok program ∧
      (start program pairSettings).corpus.1 = .ok [[7, 54], [7, 90]] ∧
      ((perform ⟨"script.fz", pairSettings, false⟩ : StateM Folder _) folder).1.lines =
        ["07 36", "07 5a"] ∧
      ∃ after files, (writeCorpus "out" (start program pairSettings) : StateM Folder _) .empty =
          ((.ok ⟨["out/case-0.bin", "out/case-1.bin"], 1⟩, after), files) ∧
        files.content? "out/case-0.bin" = some [7, 54] ∧
        files.content? "out/case-1.bin" = some [7, 90] := by
  have hmade : ((Script.parse .standard halfScript).toOption.map fun program =>
      let made := (start program pairSettings).yield 2
      (made.artifacts, made.failure, made.after.discarded)) =
        some ([[7, 54], [7, 90]], none, 1) := by
    decide +kernel
  have hread : (readScript "script.fz" : StateM Folder _)
      (Folder.empty.put "script.fz" halfScript.toUTF8.toList) =
        (.ok halfScript, Folder.empty.put "script.fz" halfScript.toUTF8.toList) := by
    have htext : String.fromUTF8? halfScript.toUTF8.toList.toByteArray = some halfScript := by
      decide +kernel
    rw [readScript]
    simp only [bind, StateT.bind, Folder.read_put, htext]
    rfl
  rcases hparse : Script.parse .standard halfScript with fault | program
  · rw [hparse] at hmade
    cases hmade
  rcases hyield : (start program pairSettings).yield (start program pairSettings).settings.count
    with ⟨artifacts, failure, after⟩
  rw [hparse] at hmade
  obtain ⟨rfl, rfl, hdiscarded⟩ :
      artifacts = [[7, 54], [7, 90]] ∧ failure = none ∧ after.discarded = 1 := by
    have hyield : (start program pairSettings).yield 2 = ⟨artifacts, failure, after⟩ := hyield
    simpa [Except.toOption, hyield] using hmade
  obtain ⟨-, -, -, outcomes, hran, -, hcorpus, -, hperform, hwritten, -⟩ :=
    corpora_agree (start program pairSettings) "script.fz" "out"
  obtain ⟨hreport, hfiles⟩ := hwritten (by decide : 2 ≤ maxListed)
  have hprinted := hperform _ halfScript program hread hparse rfl rfl
  rw [hyield] at hran hcorpus hprinted hreport hfiles
  have hfailures : failuresIn outcomes = 1 := by
    have hcount : after.discarded = 0 + failuresIn outcomes := hran.discarded_eq
    omega
  have hplaces : (List.range 2).map (placeIn "out" pairSettings) =
      ["out/case-0.bin", "out/case-1.bin"] := by
    decide +kernel
  have hreport : ((writeCorpus "out" (start program pairSettings) : StateM Folder _) .empty).1 =
      (.ok ⟨(List.range 2).map (placeIn "out" pairSettings), failuresIn outcomes⟩, after) := hreport
  rw [hplaces, hfailures] at hreport
  obtain ⟨hfirst, hsecond⟩ : placeIn "out" pairSettings 0 = "out/case-0.bin" ∧
      placeIn "out" pairSettings 1 = "out/case-1.bin" := by
    simpa [List.range_succ] using hplaces
  refine ⟨program, rfl, congrArg Prod.fst hcorpus, congrArg (fun run => run.1.lines) hprinted,
    after, _, Prod.ext hreport rfl, ?_, ?_⟩
  · exact (hfiles _ _).mpr ⟨0, hfirst.symm, rfl⟩
  · exact (hfiles _ _).mpr ⟨1, hsecond.symm, rfl⟩

/-- A field that is given by what comes after it, so that every pass fails alike. -/
def earlyProgram : Program where
  arena := {
    decls := #[.block 0 4 (some 1), .block 1 4 (some 0)]
    templates := #[]
    fillers := #[.quantity (.checksumOf 0), .random] }
  fields := [0, 1]
  names := ⟨["late", "early"]⟩
  order := .big

def vastSettings : Settings := { Settings.default with count := UInt64.size - 1 }

/-- Writing does not end like the other two where more files are asked for than can be listed: every pass
fails, and what is reported is not the failure. -/
theorem overflow_instead_of_failure :
    let g := start earlyProgram vastSettings
    let failure : Exhausted := ⟨1, .readBeforeFilled "late" "early"⟩
    g.corpus.1 = .error failure ∧
    (print ⟨"script.fz", vastSettings, false⟩ g).1 =
      ⟨[], some (errorReport failure.message []), .failure⟩ ∧
    ((writeCorpus "out" g : StateM Folder _) .empty).1.1 = .error .overflow := by
  have hfailure : ((start earlyProgram vastSettings).yield 1).failure =
      some ⟨1, .readBeforeFilled "late" "early"⟩ := by
    decide +kernel
  rcases hrun : (start earlyProgram vastSettings).nextArtifact with ⟨e | bytes, after⟩
  · rw [yield_of_error hrun 0] at hfailure
    obtain rfl : e = ⟨1, .readBeforeFilled "late" "early"⟩ := Option.some.inj hfailure
    have hcount : vastSettings.count = UInt64.size - 2 + 1 := rfl
    refine ⟨?_, ?_, ?_⟩
    · change (collect vastSettings.count (start earlyProgram vastSettings)).1 = _
      rw [collect_eq, hcount, yield_of_error hrun]
      rfl
    · rw [print]
      dsimp only
      rw [printFrom_eq, hcount, yield_of_error hrun]
      rfl
    · rw [writeCorpus_apply, if_pos (by decide +kernel)]
  · rw [yield_of_ok hrun 0] at hfailure
    cases hfailure

end Generator
end ArtifactLayout
