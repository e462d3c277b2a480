import Mathlib.Data.List.Nodup
import Montage.Content.Library
import Montage.Proofs.Files.Order
import Montage.Proofs.Files.Under
import Montage.Time.Text

/-!
# The files that a library offers

A library goes through its files in whatever order they are found. It offers those that share a word
with the query, and puts them in an order in which no two files have the same place, so that what it
offers is determined by the files alone. Main statement: for all orders in which files are found
there is one list, of which the first file that fits is copied.
-/

namespace Montage.Library

/-! ## Offered files -/

/-- The words of a query that the name of a file has, each counted as often as the query has it. -/
def shared (query : String) (p : Path) : Nat := score (Query.words query) p

/-- A file of an allowed kind whose name has a word of the query. -/
structure Answers (query : String) (kind : MediaKind) (p : Path) : Prop where
  extension : ∃ e, p.extension? = some e ∧ Text.lowercaseAscii e ∈ kind.extensions
  word : ∃ w ∈ Query.words query, w ∈ Query.words (p.stem?.getD "")

/-- A file shares more words with a query than another, or as many and has the lesser path. -/
def Ahead (query : String) (p q : Path) : Prop :=
  shared query q < shared query p ∨ shared query p = shared query q ∧ p.le q = true

/-- The files that answer a query, once each and best first. -/
structure Ranking (query : String) (kind : MediaKind) (files ranked : List Path) : Prop where
  mem_iff : ∀ p, p ∈ ranked ↔ p ∈ files ∧ Answers query kind p
  nodup : ranked.Nodup
  ordered : ranked.Pairwise (Ahead query)

instance (query : String) (p q : Path) : Decidable (Ahead query p q) :=
  inferInstanceAs (Decidable (_ ∨ _ ∧ _))

/-- The place of a file with a score among all of them. -/
def place (a : Nat × Path) : ℕᵒᵈ ×ₗ List (ℕ ×ₗ String) := toLex (OrderDual.toDual a.1, a.2.key)

theorem place_le {a b : Nat × Path} :
    place a ≤ place b ↔ b.1 < a.1 ∨ a.1 = b.1 ∧ a.2.le b.2 = true := by
  rw [place, place, Prod.Lex.toLex_le_toLex, Path.le_iff]
  rfl

theorem precedes_iff {a b : Nat × Path} : precedes a b = true ↔ place a ≤ place b := by
  rw [place_le, precedes, Bool.or_eq_true, Bool.and_eq_true, decide_eq_true_iff, decide_eq_true_iff]

section
variable {query : String} {kind : MediaKind} {files : List Path}

theorem answers_iff {p : Path} : Answers query kind p ↔
    (hasExtension kind.extensions p && decide (0 < shared query p)) = true := by
  have hextension : (∃ e, p.extension? = some e ∧ Text.lowercaseAscii e ∈ kind.extensions) ↔
      hasExtension kind.extensions p = true := by
    simp [hasExtension, Option.any_eq_true]
  have hword : (∃ w ∈ Query.words query, w ∈ Query.words (p.stem?.getD "")) ↔
      0 < shared query p := by
    simp [shared, score, List.countP_pos_iff]
  rw [Bool.and_eq_true, decide_eq_true_iff, ← hextension, ← hword]
  exact ⟨fun h => ⟨h.extension, h.word⟩, fun h => ⟨h.1, h.2⟩⟩

instance (p : Path) : Decidable (Answers query kind p) := decidable_of_iff _ answers_iff.symm

/-- The files that answer a query, with their scores. -/
def scored (query : String) (kind : MediaKind) (files : List Path) : List (Nat × Path) :=
  files.filterMap fun p =>
    if hasExtension kind.extensions p && 0 < shared query p then some (shared query p, p) else none

theorem rank_eq (query : String) (kind : MediaKind) (files : List Path) :
    rank query kind files = ((scored query kind files).mergeSort precedes).map (·.2) := rfl

theorem fst_of_mem_scored {a : Nat × Path} (h : a ∈ scored query kind files) :
    a.1 = shared query a.2 := by
  obtain ⟨p, -, hp⟩ := List.mem_filterMap.mp h
  rw [Option.ite_none_right_eq_some] at hp
  obtain rfl := Option.some.inj hp.2
  rfl

theorem map_scored : (scored query kind files).map (·.2) =
    files.filter fun p => Answers query kind p := by
  rw [scored, List.map_filterMap, ← List.filterMap_eq_filter]
  congr 1
  funext p
  by_cases h : Answers query kind p
  · rw [if_pos (answers_iff.mp h), Option.guard, if_pos (decide_eq_true h), Option.map_some]
  · rw [if_neg (answers_iff.not.mp h), Option.guard, if_neg (by simpa using h), Option.map_none]

theorem rank_perm :
    (rank query kind files).Perm (files.filter fun p => Answers query kind p) := by
  rw [rank_eq, ← map_scored]
  exact (List.mergeSort_perm _ _).map _

theorem pairwise_rank : (rank query kind files).Pairwise (Ahead query) := by
  have htrans (a b c : Nat × Path) (hab : precedes a b = true) (hbc : precedes b c = true) :
      precedes a c = true := by
    rw [precedes_iff] at hab hbc ⊢
    exact hab.trans hbc
  have htotal (a b : Nat × Path) : (precedes a b || precedes b a) = true := by
    rw [Bool.or_eq_true, precedes_iff, precedes_iff]
    exact le_total _ _
  have hsorted := List.pairwise_mergeSort htrans htotal (scored query kind files)
  rw [rank_eq, List.pairwise_map]
  refine hsorted.imp_of_mem fun ha hb hab => ?_
  rw [List.mem_mergeSort] at ha hb
  rw [Ahead, ← fst_of_mem_scored ha, ← fst_of_mem_scored hb]
  exact place_le.mp (precedes_iff.mp hab)

theorem Ranking.of_perm_filter (hdistinct : files.Nodup) {ps : List Path}
    (hperm : ps.Perm (files.filter fun p => Answers query kind p))
    (hordered : ps.Pairwise (Ahead query)) : Ranking query kind files ps where
  mem_iff p := by rw [hperm.mem_iff, List.mem_filter, decide_eq_true_iff]
  nodup := hperm.nodup_iff.mpr (hdistinct.filter _)
  ordered := hordered

theorem ranking_rank (hdistinct : files.Nodup) :
    Ranking query kind files (rank query kind files) :=
  .of_perm_filter hdistinct rank_perm pairwise_rank

/-- There is one ranking of files that have different components. -/
theorem Ranking.eq (hdistinct : (files.map Path.components).Nodup) {ps qs : List Path}
    (hp : Ranking query kind files ps) (hq : Ranking query kind files qs) : ps = qs := by
  have hperm : ps.Perm qs :=
    (List.perm_ext_iff_of_nodup hp.nodup hq.nodup).mpr fun p => by rw [hp.mem_iff, hq.mem_iff]
  refine hperm.eq_of_pairwise (fun p q hps hqs hpq hqp => ?_) hp.ordered hq.ordered
  have hplace : place (shared query p, p) = place (shared query q, q) :=
    le_antisymm (place_le.mpr hpq) (place_le.mpr hqp)
  have hcomponents : p.components = q.components :=
    Path.key_eq_key.mp (congrArg Prod.snd (toLex.injective hplace))
  exact List.inj_on_of_nodup_map hdistinct ((hp.mem_iff p).mp hps).1 ((hq.mem_iff q).mp hqs).1
    hcomponents

theorem Ranking.of_perm {files' ranked : List Path} (hperm : files.Perm files')
    (h : Ranking query kind files ranked) : Ranking query kind files' ranked where
  mem_iff p := by rw [h.mem_iff, hperm.mem_iff]
  nodup := h.nodup
  ordered := h.ordered

end

/-! ## The file that is copied -/

section
variable {T : Type} [TimeScale T] [Spelled T]

/-- What is known of a file does not rule it out for a request. -/
structure Suits (request : Request T) (m : MediaSummary T) : Prop where
  orientation : request.orientation = "" ∨ m.orientation = request.orientation
  duration : ∀ longest d, request.maxDuration = some longest → m.duration = some d → ¬ longest < d

/-- A file fits a request. With a prober, it has to be one that can be described. -/
def Fits (l : Library) (h : Host) (request : Request T) (fs : Files) (p : Path) : Prop :=
  ∀ prober, l.prober = some prober →
    ∃ m, (MediaSummary.probe h prober p fs).1 = .ok m ∧ Suits request m

/-- The first of some files of which `P` holds. -/
def IsFirst (P : Path → Prop) (ps : List Path) (p : Path) : Prop :=
  P p ∧ ∃ before after, ps = before ++ p :: after ∧ ∀ q ∈ before, ¬ P q

/-- What becomes of a request for which a file was chosen. -/
structure Copies (request : Request T) (scratch : Scratch) (fs : Files) (p : Path)
    (reply : Fetched) : Prop where
  advanced : reply.scratch = scratch.advance
  copied : ∀ out, fs.copy p (copyPath request scratch p) = .ok out →
    reply.answer = .ok (some (copyPath request scratch p)) ∧ reply.files = out
  failed : ∀ e, fs.copy p (copyPath request scratch p) = .error e →
    reply.answer = .error (.io e) ∧ reply.files = fs

/-- What becomes of a request for which there is no file. -/
structure Misses (scratch : Scratch) (fs : Files) (reply : Fetched) : Prop where
  answer : reply.answer = .ok none
  scratch : reply.scratch = scratch
  files : reply.files = fs

theorem fits_iff {h : Host} {prober : Path} {request : Request T} {fs : Files} {p : Path} :
    (fits h prober request fs p).1 = true ↔
      ∃ m, (MediaSummary.probe h prober p fs).1 = .ok m ∧ Suits request m := by
  unfold fits
  generalize (MediaSummary.probe h prober p fs :
    Except Failure (MediaSummary T) × List Log.Line) = probed
  obtain ⟨e | m, log⟩ := probed
  · exact ⟨nofun, nofun⟩
  · have hone : (∃ n, (Except.ok m : Except Failure (MediaSummary T)) = .ok n ∧ Suits request n) ↔
        Suits request m :=
      ⟨fun ⟨n, hn, hsuits⟩ => Except.ok.inj hn ▸ hsuits, fun hsuits => ⟨m, rfl, hsuits⟩⟩
    rw [hone]
    dsimp only
    split_ifs with hturned
    · have hother : request.orientation ≠ "" ∧ m.orientation ≠ request.orientation := by
        simpa using hturned
      exact ⟨nofun, fun hsuits => (hsuits.orientation.elim hother.1 hother.2).elim⟩
    · have horientation : request.orientation = "" ∨ m.orientation = request.orientation := by
        simpa [or_iff_not_imp_left] using hturned
      split
      · next longest d hmost hlong =>
        split_ifs with hlonger
        · exact ⟨nofun, fun hsuits => absurd hlonger (hsuits.duration longest d hmost hlong)⟩
        · refine iff_of_true rfl ⟨horientation, fun longest' d' hmost' hlong' => ?_⟩
          rw [hmost] at hmost'
          rw [hlong] at hlong'
          cases hmost'
          cases hlong'
          exact hlonger
      · next hshort =>
        exact iff_of_true rfl
          ⟨horientation, fun longest d hmost hlong _ => hshort longest d hmost hlong⟩

theorem fst_firstFit (test : Path → Bool × List Log.Line) (ps : List Path) :
    (firstFit test ps).1 = ps.find? fun p => (test p).1 := by
  fun_induction firstFit test ps with
  | case1 => rfl
  | case2 p ps log htest => rw [List.find?_cons_of_pos (by simp [htest])]
  | case3 p ps log htest found rest hrest ih =>
    rw [List.find?_cons_of_neg (by simp [htest]), ← ih, hrest]

section
variable {l : Library} {h : Host} {request : Request T} {fs : Files}

/-- The test that the candidates are put to, one after the other. -/
def accepts (l : Library) (h : Host) (request : Request T) (fs : Files) (p : Path) : Bool :=
  match l.prober with
  | some prober => (fits h prober request fs p).1
  | none => true

theorem accepts_iff {p : Path} : l.accepts h request fs p = true ↔ l.Fits h request fs p := by
  unfold accepts Fits
  cases l.prober with
  | none => exact iff_of_true rfl nofun
  | some prober => simp [fits_iff]

theorem fst_choose : (l.choose h request fs).1 =
    (l.candidates request.query request.kind fs).find? (l.accepts h request fs) := by
  unfold choose accepts
  cases l.prober with
  | none => cases l.candidates request.query request.kind fs <;> rfl
  | some prober => exact fst_firstFit _ _

theorem fst_choose_eq_some {p : Path} : (l.choose h request fs).1 = some p ↔
    IsFirst (l.Fits h request fs) (l.candidates request.query request.kind fs) p := by
  rw [fst_choose, List.find?_eq_some_iff_append, accepts_iff]
  simp [IsFirst, ← accepts_iff]

theorem fst_choose_eq_none : (l.choose h request fs).1 = none ↔
    ∀ p ∈ l.candidates request.query request.kind fs, ¬ l.Fits h request fs p := by
  rw [fst_choose, List.find?_eq_none]
  simp only [accepts_iff]

theorem copies_fetch (hroot : fs.isDirectory l.root = true) {p : Path}
    (hp : (l.choose h request fs).1 = some p) (scratch : Scratch) :
    Copies request scratch fs p (l.fetch h request scratch fs) := by
  cases hchoose : l.choose h request fs with
  | mk found log =>
    obtain rfl : found = some p := by rw [← hp, hchoose]
    simp only [fetch, hroot, Bool.not_true, Bool.false_eq_true, if_false, hchoose]
    cases hcopy : fs.copy p (copyPath request scratch p) with
    | error e =>
      refine ⟨rfl, fun out hout => ?_, fun e' he => ?_⟩
      · cases hcopy.symm.trans hout
      · cases hcopy.symm.trans he
        exact ⟨rfl, rfl⟩
    | ok out =>
      refine ⟨rfl, fun out' hout => ?_, fun e he => ?_⟩
      · cases hcopy.symm.trans hout
        exact ⟨rfl, rfl⟩
      · cases hcopy.symm.trans he

theorem misses_fetch (hroot : fs.isDirectory l.root = true)
    (hnone : (l.choose h request fs).1 = none) (scratch : Scratch) :
    Misses scratch fs (l.fetch h request scratch fs) := by
  cases hchoose : l.choose h request fs with
  | mk found log =>
    obtain rfl : found = none := by rw [← hnone, hchoose]
    simp only [fetch, hroot, Bool.not_true, Bool.false_eq_true, if_false, hchoose]
    exact ⟨rfl, rfl, rfl⟩

end

/-- Files that are found in any order are offered as one list, of which the first that fits is
copied. -/
theorem candidates_ranking {files : List Path} (hdistinct : (files.map Path.components).Nodup)
    (query : String) (kind : MediaKind) :
    ∃ ranked, (∀ ps, Ranking query kind files ps ↔ ps = ranked) ∧
      ∀ (l : Library) (fs : Files), (fs.under l.root).Perm files →
        l.candidates query kind fs = ranked ∧
        ∀ (h : Host) (request : Request T) (scratch : Scratch), request.query = query →
          request.kind = kind → fs.isDirectory l.root = true →
          (∀ p, IsFirst (l.Fits h request fs) ranked p →
            Copies request scratch fs p (l.fetch h request scratch fs)) ∧
          ((∀ p ∈ ranked, ¬ l.Fits h request fs p) →
            Misses scratch fs (l.fetch h request scratch fs)) := by
  have hranking : Ranking query kind files (rank query kind files) := ranking_rank hdistinct.of_map
  have hunique (ps : List Path) : Ranking query kind files ps ↔ ps = rank query kind files :=
    ⟨fun h => h.eq hdistinct hranking, fun h => h ▸ hranking⟩
  refine ⟨rank query kind files, hunique, fun l fs hperm => ?_⟩
  have hcandidates : l.candidates query kind fs = rank query kind files := by
    rw [← hunique]
    exact (ranking_rank (hperm.nodup_iff.mpr hdistinct.of_map)).of_perm hperm
  refine ⟨hcandidates, ?_⟩
  rintro h request scratch rfl rfl hroot
  rw [← hcandidates]
  exact ⟨fun p hp => copies_fetch hroot (fst_choose_eq_some.mpr hp) scratch,
    fun hnone => misses_fetch hroot (fst_choose_eq_none.mpr hnone) scratch⟩

end

/-! ## A library of four files -/

def mediaShelf : Files where
  here := []
  entries := [
    (["media"], .directory), (["media", "sea.mp4"], .file ⟨#[1]⟩),
    (["media", "night"], .directory), (["media", "night", "Sea_Dusk.MOV"], .file ⟨#[2]⟩),
    (["media", "dusk.txt"], .file ⟨#[3]⟩), (["media", "sea-2.mp4"], .file ⟨#[4]⟩),
    (["scratch"], .directory)]

theorem sound_mediaShelf : mediaShelf.Sound := ⟨by decide +kernel, by decide +kernel⟩

def duskRequest : Request Float where
  query := "dusk sea dusk"
  kind := .video
  maxDuration := some 30.0
  orientation := "landscape"

/-- No program comes to an end on it. -/
def stuckHost : Host := ⟨fun _ _ _ _ => .overdue⟩

/-- Without a prober, the file with most of the words is copied; with one that describes nothing, no
file fits. -/
theorem candidates_ranking_mediaShelf :
    let l : Library := ⟨⟨"/media"⟩, none⟩
    let wary : Library := ⟨⟨"/media"⟩, some ⟨"/bin/prober"⟩⟩
    let scratch : Scratch := ⟨⟨"/scratch"⟩, false, fun _ => "0a1b2c3d", 0⟩
    let best : Path := ⟨"/media/night/Sea_Dusk.MOV"⟩
    ((mediaShelf.under ⟨"/media"⟩).map Path.components).Nodup ∧
      l.candidates "dusk sea dusk" .video mediaShelf =
        [best, ⟨"/media/sea-2.mp4"⟩, ⟨"/media/sea.mp4"⟩] ∧
      Copies duskRequest scratch mediaShelf best
        (l.fetch stuckHost duskRequest scratch mediaShelf) ∧
      Misses scratch mediaShelf (wary.fetch stuckHost duskRequest scratch mediaShelf) := by
  intro l wary scratch best
  have hroot : mediaShelf.isDirectory ⟨"/media"⟩ = true := by decide +kernel
  have hdistinct := sound_mediaShelf.nodup_under hroot
  obtain ⟨ranked, hunique, hall⟩ :=
    candidates_ranking (T := Float) hdistinct "dusk sea dusk" .video
  have hranked : [best, ⟨"/media/sea-2.mp4"⟩, ⟨"/media/sea.mp4"⟩] = ranked :=
    (hunique _).mp (.of_perm_filter hdistinct.of_map (by decide +kernel) (by decide +kernel))
  obtain ⟨hcandidates, hfetch⟩ := hall l mediaShelf (.refl _)
  obtain ⟨-, hwary⟩ := hall wary mediaShelf (.refl _)
  have hbest : IsFirst (l.Fits stuckHost duskRequest mediaShelf) ranked best :=
    ⟨nofun, [], _, hranked.symm, nofun⟩
  have hprobe (p : Path) : ∃ e, (MediaSummary.probe stuckHost ⟨"/bin/prober"⟩ p mediaShelf :
      Except Failure (MediaSummary Float) × List Log.Line).1 = .error e := by
    unfold MediaSummary.probe Command.execute Command.launch
    split_ifs <;> exact ⟨_, rfl⟩
  have hnone : ∀ p ∈ ranked, ¬ wary.Fits stuckHost duskRequest mediaShelf p := by
    intro p _ hfits
    obtain ⟨m, hm, -⟩ := hfits _ rfl
    obtain ⟨e, he⟩ := hprobe p
    cases he.symm.trans hm
  exact ⟨hdistinct, hcandidates.trans hranked.symm,
    (hfetch stuckHost duskRequest scratch rfl rfl hroot).1 best hbest,
    (hwary stuckHost duskRequest scratch rfl rfl hroot).2 hnone⟩

end Montage.Library
