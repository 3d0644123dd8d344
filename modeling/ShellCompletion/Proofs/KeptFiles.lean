import ShellCompletion.Proofs.Outcome
import ShellCompletion.Proofs.Phases
import ShellCompletion.Proofs.Session

/-! What becomes of files over many runs. A run is watched, so that the trees in the middle of it count too; then one
    operation keeps the files that there are, a run is a sequence of operations, and a history a sequence of runs. -/

namespace ShellCompletion

open FileTree

/-! ### Watching -/

/-- A run on a file tree with what there is to see of it: the trees that its operations leave, in order. -/
@[ext] structure Watched (α : Type) where
  session : Session α
  trees : FileTree → List FileTree

namespace Watched

variable {α β : Type} {x : Watched α} {k : α → Watched β} {t : FileTree}

/-- One operation: nothing is seen between its beginning and its end. Putting a file in its place is one operation, so
    that the temporary file which comes before it is not seen. -/
def once (x : Session α) : Watched α := ⟨x, fun t => [(x t).tree]⟩

/-- What is seen after a run is over. -/
def treesAfter (k : α → Watched β) (d : Done α) : List FileTree :=
  match d.result with
  | .error _ => []
  | .ok a => (k a).trees d.tree

/-- One run and, if it succeeds, another. -/
def andThen (x : Watched α) (k : α → Watched β) : Watched β :=
  ⟨x.session >>= fun a => (k a).session, fun t => x.trees t ++ treesAfter k (x.session t)⟩

instance : Monad Watched where
  pure a := ⟨pure a, fun _ => []⟩
  bind := andThen

instance : Host Watched where
  fail f := once (Host.fail f)
  log event := once (Host.log event)
  print text := once (Host.print text)
  read path := once (Host.read path)
  isPresent path := once (Host.isPresent path)
  makeDirectories path := once (Host.makeDirectories path)
  place path text executable overwrite := once (Host.place path text executable overwrite)

theorem bind_pure_eq (x : Watched α) : x >>= pure = x := by
  refine Watched.ext (bind_pure x.session) (funext fun t => ?_)
  show x.trees t ++ treesAfter pure (x.session t) = x.trees t
  unfold treesAfter
  split <;> exact List.append_nil _

theorem pure_bind_eq (a : α) (k : α → Watched β) : (pure a : Watched α) >>= k = k a :=
  Watched.ext (pure_bind a fun a => (k a).session) rfl

theorem treesAfter_bind {γ : Type} (k : α → Watched β) (k' : β → Watched γ) (t : FileTree) :
    treesAfter (fun a => k a >>= k') (x.session t) =
      treesAfter k (x.session t) ++ treesAfter k' ((x >>= k).session t) := by
  show _ = _ ++ treesAfter k' (Session.andThen x.session (fun a => (k a).session) t)
  unfold Session.andThen
  cases h : x.session t with
  | mk tree events output result =>
    cases result with
    | error e => rfl
    | ok a => rfl

theorem bind_assoc_eq {γ : Type} (x : Watched α) (k : α → Watched β) (k' : β → Watched γ) :
    x >>= k >>= k' = x >>= fun a => k a >>= k' := by
  refine Watched.ext (bind_assoc x.session _ _) (funext fun t => ?_)
  show x.trees t ++ treesAfter k (x.session t) ++ treesAfter k' ((x >>= k).session t) =
    x.trees t ++ treesAfter (fun a => k a >>= k') (x.session t)
  rw [treesAfter_bind, List.append_assoc]

instance : LawfulMonad Watched := LawfulMonad.mk' Watched bind_pure_eq pure_bind_eq bind_assoc_eq

/-- A watched run is the run that it is without being watched. -/
def faithful (overwrite : Bool) : Host.FullRelation Watched Session overwrite where
  Related x y := x.session = y
  pure _ := rfl
  bind hx hk := by
    subst hx
    exact congrArg (_ >>= ·) (funext hk)
  fail _ := rfl
  log _ := rfl
  print _ := rfl
  read _ := rfl
  isPresent _ := rfl
  makeDirectories _ := rfl
  place _ _ _ := rfl

/-! ### Growing -/

/-- Every tree of the run, from the first to the last, keeps the files of those before it. -/
def Grows (x : Watched α) : Prop := ∀ t, ((t :: x.trees t) ++ [(x.session t).tree]).Pairwise Keeps

theorem pairwise_join {l l' : List FileTree} (h : (l ++ [t]).Pairwise Keeps) (h' : (t :: l').Pairwise Keeps) :
    (l ++ t :: l').Pairwise Keeps := by
  obtain ⟨hl, -, hlast⟩ := List.pairwise_append.mp h
  refine List.pairwise_append.mpr ⟨hl, h', fun u hu v hv => ?_⟩
  have hut : Keeps u t := hlast u hu t (List.mem_singleton_self t)
  obtain rfl | hv := List.mem_cons.mp hv
  · exact hut
  · exact hut.trans ((List.pairwise_cons.mp h').1 v hv)

theorem grows_pure (a : α) : (pure a : Watched α).Grows := fun t => List.pairwise_pair.mpr (Keeps.refl t)

theorem Grows.bind (hx : x.Grows) (hk : ∀ a, (k a).Grows) : (x >>= k).Grows := fun t => by
  show ((t :: (x.trees t ++ treesAfter k (x.session t))) ++
    [(Session.andThen x.session (fun a => (k a).session) t).tree]).Pairwise Keeps
  unfold treesAfter Session.andThen
  cases hresult : (x.session t).result with
  | error e => simpa [hresult] using hx t
  | ok a =>
    have joined := pairwise_join (hx t) (hk a (x.session t).tree)
    -- the tree in the middle ends the first part and begins the second; what is seen of the whole run leaves it out
    refine joined.sublist ?_
    simp [hresult]

theorem grows_once {x : Session α} (h : ∀ t, Keeps t (x t).tree) : (once x).Grows := fun t => by
  simp [once, h t, Keeps.refl]

theorem keeps_place (path text : Text) (executable : Bool) (t : FileTree) :
    Keeps t ((Host.place path text executable false : Session Unit) t).tree := by
  have h := Session.ends_self (Host.place path text executable false) t
  cases hresult : ((Host.place path text executable false : Session Unit) t).result with
  | error e =>
    rw [hresult] at h
    exact Keeps.of_files (congrArg _ (Session.ends_place_error.mp h).2)
  | ok _ =>
    rw [hresult] at h
    exact Keeps.place (Session.ends_place_ok.mp h)

/-- Runs grow where no file is replaced. -/
def growing : Host.FullRelation Watched Session false where
  Related x _ := x.Grows
  pure a := grows_pure a
  bind hx hk := hx.bind hk
  fail _ := grows_once Keeps.refl
  log _ := grows_once Keeps.refl
  print text := grows_once fun t => Keeps.of_files (by rw [Session.print_tree, printed])
  read _ := grows_once Keeps.refl
  isPresent _ := grows_once Keeps.refl
  makeDirectories _ := grows_once fun _ => Keeps.of_files makeDirectories_files
  place path text executable := grows_once (keeps_place path text executable)

end Watched

/-! ### Histories -/

namespace Tool.Request

variable {r : Request} {rs : List Request} {t : FileTree}

theorem run_watched (r : Request) : (r.run : Watched Unit).session = r.run := r.run_related (Watched.faithful _)

theorem run_grows (unforced : r.force = false) : (r.run : Watched Unit).Grows := by
  have related := r.run_related (m := Watched) (n := Session)
  -- only where nothing is replaced is growing kept by every operation
  rw [unforced] at related
  exact related Watched.growing

/-- The tree after requests were run one after the other, whether they succeeded or not. -/
def after : List Request → FileTree → FileTree
  | [], t => t
  | r :: rs, t => after rs ((r.run : Session Unit) t).tree

/-- The trees that requests go through when they are run one after the other, without the first. -/
def later : List Request → FileTree → List FileTree
  | [], _ => []
  | r :: rs, t =>
    let u := ((r.run : Session Unit) t).tree
    (r.run : Watched Unit).trees t ++ u :: later rs u

/-- The trees between the operations of requests that are run one after the other, from the first tree to the last.
    What there is while a file is put in its place, its temporary file above all, is in none of them. -/
def history (rs : List Request) (t : FileTree) : List FileTree := t :: later rs t

theorem after_append (rs rs' : List Request) (t : FileTree) : after (rs ++ rs') t = after rs' (after rs t) := by
  induction rs generalizing t with
  | nil => rfl
  | cons r rs ih => exact ih _

theorem after_mem_history (rs : List Request) (t : FileTree) : after rs t ∈ history rs t := by
  induction rs generalizing t with
  | nil => exact List.mem_singleton_self t
  | cons r rs ih => exact List.mem_cons_of_mem t (List.mem_append_right _ (ih _))

theorem pairwise_history (unforced : ∀ r ∈ rs, r.force = false) : (history rs t).Pairwise Keeps := by
  induction rs generalizing t with
  | nil => exact List.pairwise_singleton _ _
  | cons r rs ih =>
    obtain ⟨first, rest⟩ := List.forall_mem_cons.mp unforced
    have run := run_grows first t
    rw [run_watched] at run
    exact Watched.pairwise_join run (ih rest)

theorem keeps_after (unforced : ∀ r ∈ rs, r.force = false) : Keeps t (after rs t) := by
  obtain same | hmem := List.mem_cons.mp (after_mem_history rs t)
  · rw [same]
    exact Keeps.refl t
  · exact (List.pairwise_cons.mp (pairwise_history unforced)).1 _ hmem

/-- Where no request may replace files, every file stays as it is: through every operation of every run, and from each
    run to the runs after it. -/
theorem unforced_requests_keep_files (rs : List Request) (t : FileTree) (unforced : ∀ r ∈ rs, r.force = false) :
    (history rs t).Pairwise Keeps ∧ ∀ i j, i ≤ j → Keeps (after (rs.take i) t) (after (rs.take j) t) := by
  refine ⟨pairwise_history unforced, fun i j hij => ?_⟩
  obtain ⟨d, rfl⟩ := Nat.exists_eq_add_of_le hij
  rw [List.take_add, after_append]
  exact keeps_after fun r hr => unforced r (List.drop_subset _ _ (List.take_subset _ _ hr))

def sampleTree : FileTree where
  files := [(["demo.yaml".toList], ⟨some "name: demo\n".toList, 0o600⟩)]

/-- The first request writes a launcher and then fails; the next two are refused. -/
def sampleRequests : List Request :=
  [.generate { model := "demo.yaml".toList, script := some "demo".toList, launcher := true },
    .init { name := "demo".toList },
    .generate { model := "demo.yaml".toList, launcher := true },
    .completion bash]

def sampleLauncher : File := ⟨some (Generate.launcherText "demo".toList), File.executableMode⟩

theorem sample_requests_keep_files :
    (after (sampleRequests.take 1) sampleTree).file? ["demo".toList] = some sampleLauncher ∧
      (after (sampleRequests.take 4) sampleTree).file? ["demo".toList] = some sampleLauncher := by
  have written : (after (sampleRequests.take 1) sampleTree).file? ["demo".toList] = some sampleLauncher := by
    decide +kernel
  refine ⟨written, ?_⟩
  exact (unforced_requests_keep_files sampleRequests sampleTree (by decide)).2 1 4 (by decide) _ _ written

end Tool.Request
end ShellCompletion
