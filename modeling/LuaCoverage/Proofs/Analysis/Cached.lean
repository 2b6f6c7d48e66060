import LuaCoverage.Analysis.Cached
import LuaCoverage.Proofs.Cache

/-!
# Remembering trees changes no analysis

A tree is filed under a fingerprint, not under its source. As long as no two sources have the same
fingerprint, every tree that is kept is the one of the source and the language that it is asked for,
whatever was driven out meanwhile; so a run of analyses gives what each of them gives by itself. The
language need not be told apart: a fingerprint always has the same length.

Results:
* `Trees.key_inj`: what is filed under one name has one language and one fingerprint.
* `Trees.Sound.tree?`: a parse that may be remembered gives the tree, and keeps all trees sound.
* `Analyzer.analyzeAll_eq`: a run of analyses that remember trees.
-/

namespace LuaCoverage
open LuaCoverage.Lua LuaCoverage.Text

theorem Cache.mem_of_put? {α : Type} {c c' : Cache α} {key : String} {value : α}
    (h : c.put? key value = some c') {entry : String × α} (hentry : entry ∈ c'.entries) :
    entry ∈ c.entries ∨ entry = (key, value) := by
  unfold put? at h
  split at h
  · cases h
    rcases List.mem_append.1 hentry with hkept | hnew
    · exact .inl (mem_without.1 hkept).1
    · exact .inr (List.mem_singleton.1 hnew)
  · split at h
    · cases h
      simpa using hentry
    · split at h
      · cases h
      · next hentries =>
        cases h
        rw [hentries]
        rcases List.mem_append.1 hentry with hkept | hnew
        · exact .inl (List.mem_cons_of_mem _ hkept)
        · exact .inr (List.mem_singleton.1 hnew)

namespace Trees
variable {parser : Parser} {sources : List Bytes} {trees : Trees} {language : String}
  {source : Bytes}

theorem key_inj {language' : String} {source' : Bytes}
    (h : key language source = key language' source') :
    language = language' ∧ Digest.fingerprint source = Digest.fingerprint source' := by
  have hchars := congrArg String.toList h
  simp only [key, String.toList_append] at hchars
  have hlength : (Digest.fingerprint source).toList.length
      = (Digest.fingerprint source').toList.length := by
    rw [String.length_toList, String.length_toList, Digest.length_fingerprint,
      Digest.length_fingerprint]
  rw [List.append_assoc, List.append_assoc] at hchars
  obtain ⟨hfingerprint, hlanguage⟩ := List.append_inj hchars hlength
  exact ⟨String.toList_inj.1 (List.append_cancel_left hlanguage),
    String.toList_inj.1 hfingerprint⟩

/-- Every tree that is kept is one of the sources, in the language that it is filed under. -/
def Sound (parser : Parser) (sources : List Bytes) (trees : Trees) : Prop :=
  ∀ entry ∈ trees.entries, ∃ source ∈ sources, ∃ dialect : Dialect, ∃ language,
    Dialect.ofName? language = some dialect ∧ entry = (key language source, parser dialect source)

theorem sound_empty : Sound parser sources empty := by
  intro entry hentry
  cases hentry

/-- Sources that have different fingerprints, each of them known by its own. -/
def Apart (sources : List Bytes) : Prop :=
  ∀ s ∈ sources, ∀ t ∈ sources, Digest.fingerprint s = Digest.fingerprint t → s = t

/-- A parse that may be remembered gives the tree, and keeps all trees sound. -/
theorem Sound.tree? (hs : Sound parser sources trees) (hapart : Apart sources)
    (hsource : source ∈ sources) (language : String) :
    (trees.tree? parser language source).1
        = (Dialect.ofName? language).map (fun dialect => parser dialect source)
      ∧ Sound parser sources (trees.tree? parser language source).2 := by
  unfold Trees.tree?
  rcases trees.get_cases (key language source) with ⟨tree, hmem, hget⟩ | ⟨-, hget⟩
  · rw [hget]
    obtain ⟨other, hother, dialect, language', hdialect, hentry⟩ := hs _ hmem
    obtain ⟨hkey, rfl⟩ := Prod.mk.inj hentry
    obtain ⟨rfl, hfingerprint⟩ := key_inj hkey
    obtain rfl := hapart _ hsource _ hother hfingerprint
    refine ⟨by rw [hdialect]; rfl, fun entry hentry => ?_⟩
    rcases List.mem_append.1 hentry with hkept | hnew
    · exact hs entry (Cache.mem_without.1 hkept).1
    · rw [List.mem_singleton.1 hnew]
      exact hs _ hmem
  · rw [hget]
    cases hdialect : Dialect.ofName? language with
    | none => exact ⟨rfl, hs⟩
    | some dialect =>
      refine ⟨rfl, ?_⟩
      change Sound parser sources
        ((trees.put? (key language source) (parser dialect source)).getD trees)
      cases hput : trees.put? (key language source) (parser dialect source) with
      | none => exact hs
      | some later =>
        intro entry hentry
        rcases Cache.mem_of_put? hput hentry with hold | rfl
        · exact hs entry hold
        · exact ⟨source, hsource, dialect, language, hdialect, rfl⟩

end Trees

namespace Analyzer
variable {sources : List Bytes} {trees : Trees}

/-- A module to analyse, and how. -/
structure Request where
  analyzer : Analyzer
  source : Bytes
  path : String

/-- Analyses modules one after the other with the trees that are kept. -/
def analyzeAll : List Request → Trees → List (Except AnalysisError Analysis)
  | [], _ => []
  | r :: rest, trees =>
    let (result, trees) := r.analyzer.analyzeWith r.source r.path trees
    result :: analyzeAll rest trees

theorem analyzeWith_eq {a : Analyzer} {source : Bytes} (hs : Trees.Sound a.parser sources trees)
    (hapart : Trees.Apart sources) (hsource : source ∈ sources) (path : String) :
    (a.analyzeWith source path trees).1 = a.analyze source path
      ∧ Trees.Sound a.parser sources (a.analyzeWith source path trees).2 := by
  obtain ⟨htree, hsound⟩ := hs.tree? hapart hsource (a.languageOf path)
  refine ⟨?_, hsound⟩
  simp only [analyzeWith, analyze, parse, htree]
  cases Dialect.ofName? (a.languageOf path) <;> rfl

/-- Whatever analyses come before, with whatever first ids and paths and in whatever languages, and
whatever trees had to go meanwhile: with one parser, and sources that are known by their
fingerprints, an analysis gives what it gives by itself. -/
theorem analyzeAll_eq {parser : Parser} {requests : List Request}
    (hparser : ∀ r ∈ requests, r.analyzer.parser = parser)
    (hapart : Trees.Apart (requests.map Request.source)) :
    analyzeAll requests .empty = requests.map fun r => r.analyzer.analyze r.source r.path := by
  have hall : ∀ {later : List Request} {trees : Trees}, later ⊆ requests →
      Trees.Sound parser (requests.map Request.source) trees →
      analyzeAll later trees = later.map fun r => r.analyzer.analyze r.source r.path := by
    intro later
    induction later with
    | nil => intros; rfl
    | cons r rest ih =>
      intro trees hlater hs
      have hr := hlater List.mem_cons_self
      rw [← hparser r hr] at hs
      obtain ⟨hresult, hs⟩ := analyzeWith_eq hs hapart (List.mem_map_of_mem hr) r.path
      rw [hparser r hr] at hs
      simp only [analyzeAll, List.map_cons, hresult]
      rw [ih (fun _ h => hlater (List.mem_cons_of_mem _ h)) hs]
  exact hall (List.Subset.refl _) Trees.sound_empty

end Analyzer

end LuaCoverage
