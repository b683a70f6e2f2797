import Columnar.Path.Query
import Columnar.Proofs.Path.Cache

/-!
# Queries do not see the cache

An extractor keeps the paths that it compiled and drops some of them again, so what it does for a
query depends on all queries before. What it answers does not: any sequence of queries is answered
as if each path were compiled on the spot. Main statement: `queries_answered_without_cache`.
-/

namespace Columnar.Path

/-- The path that a reference stands for, compiled on the spot. -/
def Reference.compile : Reference → Except PathError Path
  | .text s => Path.compile s
  | .compiled p => .ok p

/-- Does the path still have to be compiled? -/
def Reference.isText : Reference → Bool
  | .text _ => true
  | .compiled _ => false

/-- One query: what is asked, about which document, at which path. -/
structure Call where
  query : Query
  root : Tree
  path : Reference

/-- The answer to a query by itself: the path is compiled, followed, and what it leads to is looked
at. -/
def Call.answer (call : Call) : Except PathError Answer :=
  call.path.compile.map fun p => call.query.answer (p.follow call.root)

namespace Extractor

/-- An extractor that has compiled nothing yet. -/
def empty (capacity : Int) : Extractor := ⟨.empty capacity⟩

/-- The answers to queries, one after the other, and the extractor behind the last. -/
def run (x : Extractor) : List Call → List (Except CacheError Answer) × Extractor
  | [] => ([], x)
  | call :: rest =>
    let (answer, next) := x.ask call.query call.root call.path
    let (answers, last) := next.run rest
    (answer :: answers, last)

variable {x : Extractor}

theorem run_cons (x : Extractor) (call : Call) (rest : List Call) :
    x.run (call :: rest) =
      ((x.ask call.query call.root call.path).1 ::
          ((x.ask call.query call.root call.path).2.run rest).1,
        ((x.ask call.query call.root call.path).2.run rest).2) := rfl

/-- What holds of an extractor between queries. -/
structure Ready (x : Extractor) : Prop where
  sound : x.cache.Sound
  room : 1 ≤ x.cache.capacity

theorem ready_empty {capacity : Int} (h : 1 ≤ capacity) : (empty capacity).Ready :=
  ⟨Cache.sound_empty capacity, h⟩

theorem Ready.ask (h : x.Ready) (q : Query) (root : Tree) (path : Reference) :
    (x.ask q root path).2.Ready := by
  cases path with
  | compiled p => exact h
  | text s =>
    have hcapacity : (x.cache.compile s).2.capacity = x.cache.capacity :=
      Cache.capacity_compile s x.cache
    exact ⟨h.sound.compile s, hcapacity ▸ h.room⟩

theorem Ready.ask_eq (h : x.Ready) (call : Call) :
    (x.ask call.query call.root call.path).1 = call.answer.mapError .path := by
  obtain ⟨q, root, path⟩ := call
  cases path with
  | compiled p => rfl
  | text s =>
    have hpath : (x.cache.compile s).1 = (Path.compile s).mapError .path :=
      h.sound.compile_eq h.room s
    change (x.cache.compile s).1.map _ = ((Path.compile s).map _).mapError _
    rw [hpath]
    cases Path.compile s <;> rfl

/-- In a run every query is answered as by itself. -/
theorem Ready.run_eq (h : x.Ready) (calls : List Call) :
    (x.run calls).1 = calls.map fun call => call.answer.mapError .path := by
  induction calls generalizing x with
  | nil => rfl
  | cons call rest ih => rw [run_cons, h.ask_eq call, ih (h.ask _ _ _), List.map_cons]

/-- Queries with compiled paths leave the extractor as it is, also in between others. -/
theorem run_filter_isText (x : Extractor) (calls : List Call) :
    (x.run (calls.filter fun call => call.path.isText)).2 = (x.run calls).2 := by
  induction calls generalizing x with
  | nil => rfl
  | cons call rest ih =>
    obtain ⟨q, root, path⟩ := call
    cases path with
    | compiled p => exact ih x
    | text s => exact ih _

end Extractor

/-- **Queries are answered without the cache.** Whatever an extractor with room for a path is asked,
in whatever order, about any documents and at any paths, each answer is that of the query by itself,
and the only errors are those of malformed paths. A query with a compiled path leaves the kept paths
and their order alone, so that in a run such queries might as well not be there. -/
theorem queries_answered_without_cache {capacity : Int} (h : 1 ≤ capacity) (calls : List Call) :
    ((Extractor.empty capacity).run calls).1 =
      calls.map (fun call => call.answer.mapError CacheError.path) ∧
    (∀ (x : Extractor) (q : Query) (root : Tree) (p : Path),
      (x.ask q root (.compiled p)).2 = x) ∧
    ((Extractor.empty capacity).run (calls.filter fun call => call.path.isText)).2 =
      ((Extractor.empty capacity).run calls).2 := by
  refine ⟨?_, fun x q root p => rfl, ?_⟩
  · exact (Extractor.ready_empty h).run_eq calls
  · exact Extractor.run_filter_isText _ calls

/-- With room for one path: a path is driven out and compiled anew, with a malformed path and a
compiled one in between. -/
theorem queries_answered_without_cache_of_one :
    (1 : Int) ≤ 1 ∧
      ((Extractor.empty 1).run
        [⟨.text, .map [("a", .scalar "1")], .text "$.a"⟩,
          ⟨.present, .sequence [.null], .text "$[0]"⟩, ⟨.keys, .null, .text "a"⟩,
          ⟨.length, .sequence [.null], .compiled ⟨"$", []⟩⟩,
          ⟨.text, .map [("a", .scalar "2")], .text "$.a"⟩]).1 =
        [.ok (.text (some "1")), .ok (.present false), .error (.path (.noRoot "a")),
          .ok (.length (some 1)), .ok (.text (some "2"))] := by
  refine ⟨by decide, ?_⟩
  rw [(queries_answered_without_cache (by decide) _).1]
  rfl

end Columnar.Path
