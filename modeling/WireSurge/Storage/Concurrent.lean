import Mathlib.Data.Fin.VecNotation
import Mathlib.Data.Fintype.Basic
import WireSurge.Lib.Run
import WireSurge.Storage.Rules

/-!
# Two updates of one request

Calls of `update_request` for one id, side by side (`callers`), take their steps
in any order. They share the temporary file. While one of them has it open
(`inside`) another may create it again, which empties it, and what is renamed is
neither text (`updates_mixed`).

In a run in which no call creates the temporary file while another has it open
(`Apart`), the stored file is the one before or a text of a call, and a text of a
call once one has returned (`stored_of_apart`). What is left of a call is
`Early` or `Inside`, and one of them at most is inside (`Orderly`).
-/

namespace WireSurge.Storage

open WireSurge.Core (RequestSpec WireSurgeError validateId)
open Fs (Bytes)
open Function (update)
open Prog (Pool)
open UnixPath (child parent)

/-- What is left of a call that writes. -/
abbrev Rest := Prog Fs.Op Fs.Ans (Except WireSurgeError Unit)

/-- An operation answered without a fault. -/
def performed (s : Fs) (op : Fs.Op) (c : Fs.Choice) : Option (Fs.Ans op × Fs) :=
  if c.isFault then none else s.perform op c

theorem world_of_performed {s s' : Fs} {op : Fs.Op} {c : Fs.Choice} {ans : Fs.Ans op}
    (h : performed s op c = some (ans, s')) : Fs.world false s op ans s' := by
  simp only [performed, Option.ite_none_left_eq_some] at h
  exact ⟨c, fun hf => absurd hf h.1, h.2⟩

/-- The calls, before their first steps. -/
def callers {ι : Type} (store : WorkspaceStore) (yaml : Yaml) (id : String) (requests : ι → RequestSpec) (s : Fs) :
    Pool ι Fs.Op Fs.Ans (Except WireSurgeError Unit) Fs :=
  ⟨fun i => (store.updateRequest yaml id (requests i)).run, s⟩

/-- The call has the temporary file open: it has created and not yet renamed it. -/
def inside (rest : Rest) : Bool :=
  match rest.next with
  | some (.write _ _) | some (.sync _) | some (.rename _ _) => true
  | _ => false

/-- The call is about to create it. -/
def creates (rest : Rest) : Bool :=
  match rest.next with
  | some (.create _) => true
  | _ => false

/-- The step does not create the temporary file while another call has it open. -/
def Apart {ι : Type} (pool : Pool ι Fs.Op Fs.Ans (Except WireSurgeError Unit) Fs) (action : ι × Fs.Choice) : Prop :=
  creates (pool.rest action.1) → ∀ j ≠ action.1, ¬inside (pool.rest j)

/-! ## What is left of a call -/

/-- The temporary file is open as `fd` and holds `written`, a part of `content`. -/
inductive Inside (path : UnixPath) (content : Bytes) (fd : Nat) : Bytes → Rest → Prop
  | writing {written rest : Bytes} {k : Except Fs.IoError Nat → Rest} : rest ≠ [] →
    (∀ n, 0 < n → n ≤ rest.length → Inside path content fd (written ++ rest.take n) (k (.ok n))) →
    Inside path content fd written (.ask (.write fd rest) k)
  | syncing {k : Except Fs.IoError Unit → Rest} : Inside path content fd content (k (.ok ())) →
    Inside path content fd content (.ask (.sync fd) k)
  | moving {k : Except Fs.IoError Unit → Rest} : k (.ok ()) = .done (.ok ()) →
    Inside path content fd content (.ask (.rename (tmpPath path) path) k)

/-- The call looks at names that are there, and then creates the temporary file. -/
inductive Early (names : List UnixPath) (path : UnixPath) (content : Bytes) : Rest → Prop
  | look {p : UnixPath} {k : Bool → Rest} : p ∈ names → Early names path content (k true) →
    Early names path content (.ask (.exists_ p) k)
  | ready {k : Except Fs.IoError Nat → Rest} : (∀ fd, Inside path content fd [] (k (.ok fd))) →
    Early names path content (.ask (.create (tmpPath path)) k)

section

variable {path : UnixPath} {content : Bytes} {fd : Nat}

/-- The rest of a replacement, with its file open. -/
theorem inside_writeRounds : ∀ {rounds : Nat} {rest written : Bytes}, rest.length ≤ rounds →
    written ++ rest = content → Inside path content fd written
      (ExceptT.run do
        writeRounds fd rounds rest
        mapErr ofIo (← ask (.sync fd))
        mapErr ofIo (← ask (.rename (tmpPath path) path))) := by
  intro rounds
  induction rounds with
  | zero =>
    intro rest written hlen hc
    obtain rfl := List.length_eq_zero_iff.mp (Nat.le_zero.mp hlen)
    rw [List.append_nil] at hc
    subst hc
    exact .syncing (.moving rfl)
  | succ rounds ih =>
    intro rest written hlen hc
    by_cases hnil : rest = []
    · rw [hnil, List.append_nil] at hc
      subst hc hnil
      exact .syncing (.moving rfl)
    · rw [writeRounds, if_neg hnil]
      refine .writing hnil fun n hn hle => ?_
      have hrest := @ih (rest.drop n) (written ++ rest.take n) (by rw [List.length_drop]; omega)
        (by rw [List.append_assoc, List.take_append_drop, hc])
      show Inside path content fd _ (ExceptT.run do
        (if n = 0 then throw (ofIo ⟨.writeZero, "failed to write whole buffer"⟩)
          else writeRounds fd rounds (rest.drop n))
        mapErr ofIo (← ask (.sync fd))
        mapErr ofIo (← ask (.rename (tmpPath path) path)))
      rwa [if_neg hn.ne']

theorem early_updateRequest {store : WorkspaceStore} {yaml : Yaml} {id text : String} {request : RequestSpec}
    (hv : validateId id = .ok ()) (ht : yaml.toYaml { request with id } = .ok text) :
    Early [store.workspaceFile, store.requestPath id] (store.requestPath id) (Str.encode text.toList)
      (store.updateRequest yaml id request).run := by
  refine .look (by simp) ?_
  show Early _ _ _ (ExceptT.run do
    liftExcept (validateId id)
    if ← ask (.exists_ (store.requestPath id)) then
      let text ← liftExcept (yaml.toYaml { request with id })
      atomicWrite (store.requestPath id) (Str.encode text.toList) false
    else throw (requestNotFound id))
  rw [hv, ht]
  exact .look (by simp) (.ready fun fd => inside_writeRounds le_rfl rfl)

theorem Inside.inside {written : Bytes} {rest : Rest} (h : Inside path content fd written rest) : inside rest := by
  cases h <;> rfl

theorem Early.not_inside {names : List UnixPath} {rest : Rest} (h : Early names path content rest) :
    ¬inside rest := by
  cases h <;> exact Bool.false_ne_true

theorem Inside.ne_done {written : Bytes} {rest : Rest} (h : Inside path content fd written rest) :
    rest ≠ .done (.ok ()) := by
  cases h <;> exact nofun

theorem Early.ne_done {names : List UnixPath} {rest : Rest} (h : Early names path content rest) :
    rest ≠ .done (.ok ()) := by
  cases h <;> exact nofun

end

/-! ## The stored file -/

/-- The request is stored as `content`, and can be replaced: there is a place for the
temporary file (in the same directory, where the path of the store is UTF-8). -/
structure Stored (store : WorkspaceStore) (id : String) (s : Fs) (content : Bytes) : Prop where
  workspace : (s.look store.workspaceFile).isSome
  place : s.look store.requestsDir = some .dir
  file : s.look (store.requestPath id) = some (.file content)
  tmp : s.look (tmpPath (store.requestPath id)) ≠ some .dir
  tmpPlace : s.look (parent (tmpPath (store.requestPath id))) = some .dir

section

variable {store : WorkspaceStore} {id : String} {s s' : Fs} {content content' : Bytes}

theorem Stored.write (hv : validateId id = .ok ()) (h : Stored store id s content)
    (hlook : s'.look = update s.look (tmpPath (store.requestPath id)) (some (.file content'))) :
    Stored store id s' content where
  workspace := by
    rw [hlook, Function.update_of_ne (tmpPath_ne_workspaceFile hv).symm]
    exact h.workspace
  place := by
    rw [hlook, Function.update_of_ne (tmpPath_ne_requestsDir hv).symm]
    exact h.place
  file := by
    rw [hlook, Function.update_of_ne (tmpPath_ne _).symm]
    exact h.file
  tmp := by
    rw [hlook, Function.update_self]
    exact nofun
  tmpPlace := by
    have hplace := h.tmpPlace
    rw [parent_tmpPath hv] at hplace ⊢
    rw [hlook, Function.update_of_ne (shownDir_ne_tmpPath hv), hplace]

theorem Stored.rename (hv : validateId id = .ok ()) (h : Stored store id s content)
    (hlook : s'.look = update (update s.look (tmpPath (store.requestPath id)) none) (store.requestPath id)
      (some (.file content'))) : Stored store id s' content' where
  workspace := by
    rw [hlook, Function.update_of_ne (requestPath_ne_workspaceFile hv).symm,
      Function.update_of_ne (tmpPath_ne_workspaceFile hv).symm]
    exact h.workspace
  place := by
    rw [hlook, Function.update_of_ne (requestPath_ne_requestsDir hv).symm,
      Function.update_of_ne (tmpPath_ne_requestsDir hv).symm]
    exact h.place
  file := by rw [hlook, Function.update_self]
  tmp := by
    rw [hlook, Function.update_of_ne (tmpPath_ne _), Function.update_self]
    exact nofun
  tmpPlace := by
    have hplace := h.tmpPlace
    rw [parent_tmpPath hv] at hplace ⊢
    rw [hlook, Function.update_of_ne (shownDir_ne_requestPath hv), Function.update_of_ne (shownDir_ne_tmpPath hv),
      hplace]

end

/-! ## One call at a time -/

variable {ι : Type} [DecidableEq ι]

/-- Each call is early, inside or has returned; one at most is inside. -/
structure Orderly (store : WorkspaceStore) (id : String) (contents : ι → Bytes) (before : Bytes)
    (pool : Pool ι Fs.Op Fs.Ans (Except WireSurgeError Unit) Fs) : Prop where
  stage (i : ι) :
    Early [store.workspaceFile, store.requestPath id] (store.requestPath id) (contents i) (pool.rest i) ∨
    (∃ fd written, Inside (store.requestPath id) (contents i) fd written (pool.rest i) ∧
      pool.state.Writing fd (tmpPath (store.requestPath id)) written) ∨ pool.rest i = .done (.ok ())
  alone {i j : ι} : inside (pool.rest i) → inside (pool.rest j) → i = j
  stored : ∃ content, Stored store id pool.state content ∧
    ((content = before ∧ ∀ i, pool.rest i ≠ .done (.ok ())) ∨ ∃ i, content = contents i)

section

variable {store : WorkspaceStore} {id : String} {contents : ι → Bytes} {before : Bytes}
variable {pool pool' : Pool ι Fs.Op Fs.Ans (Except WireSurgeError Unit) Fs} {i : ι} {rest : Rest} {s : Fs}

/-- One call goes on; a call that is inside, and is another one, sees nothing of it. -/
theorem Orderly.advance (h : Orderly store id contents before pool)
    (hi : Early [store.workspaceFile, store.requestPath id] (store.requestPath id) (contents i) rest ∨
      (∃ fd written, Inside (store.requestPath id) (contents i) fd written rest ∧
        s.Writing fd (tmpPath (store.requestPath id)) written) ∨ rest = .done (.ok ()))
    (hj : ∀ j ≠ i, inside (pool.rest j) → s = pool.state ∧ ¬inside rest)
    (hs : ∃ content, Stored store id s content ∧
      ((content = before ∧ rest ≠ .done (.ok ()) ∧ ∀ i, pool.rest i ≠ .done (.ok ())) ∨ ∃ i, content = contents i)) :
    Orderly store id contents before ⟨update pool.rest i rest, s⟩ where
  stage j := by
    by_cases hji : j = i
    · subst hji
      simpa only [Function.update_self] using hi
    · simp only [Function.update_of_ne hji]
      refine (h.stage j).imp_right (Or.imp_left fun ⟨fd, written, hin, hw⟩ => ⟨fd, written, hin, ?_⟩)
      rwa [(hj j hji hin.inside).1]
  alone {j l} hjin hlin := by
    by_cases hji : j = i <;> by_cases hli : l = i
    · rw [hji, hli]
    · subst hji
      simp only [Function.update_self, Function.update_of_ne hli] at hjin hlin
      exact absurd hjin (hj l hli hlin).2
    · subst hli
      simp only [Function.update_self, Function.update_of_ne hji] at hjin hlin
      exact absurd hlin (hj j hji hjin).2
    · simp only [Function.update_of_ne hji, Function.update_of_ne hli] at hjin hlin
      exact h.alone hjin hlin
  stored := by
    obtain ⟨content, hstored, hcontent⟩ := hs
    refine ⟨content, hstored, hcontent.imp_left fun ⟨hbefore, hrest, hno⟩ => ⟨hbefore, fun j => ?_⟩⟩
    by_cases hji : j = i
    · subst hji
      simpa only [Function.update_self] using hrest
    · simpa only [Function.update_of_ne hji] using hno j

/-- An early call looks, or creates the temporary file where no other one has it. -/
theorem Orderly.step_early (hv : validateId id = .ok ()) (h : Orderly store id contents before pool) {op : Fs.Op}
    {k : Fs.Ans op → Rest} {ans : Fs.Ans op}
    (hi : Early [store.workspaceFile, store.requestPath id] (store.requestPath id) (contents i) (.ask op k))
    (hrest : pool.rest i = .ask op k) (hapart : creates (.ask op k) → ∀ j ≠ i, ¬inside (pool.rest j))
    (hw : Fs.world false pool.state op ans s) : Orderly store id contents before ⟨update pool.rest i (k ans), s⟩ := by
  obtain ⟨content, hs, hcontent⟩ := h.stored
  cases hi with
  | look hp hk =>
    obtain ⟨rfl, -, hans⟩ := Fs.world_exists hw
    have htrue : ans = true := by
      rw [hans rfl]
      rcases List.mem_pair.mp hp with rfl | rfl
      · exact hs.workspace
      · rw [hs.file]
        rfl
    subst htrue
    exact h.advance (.inl hk) (fun j hj hin => ⟨rfl, hk.not_inside⟩)
      ⟨content, hs, hcontent.imp_left fun hb => ⟨hb.1, hk.ne_done, hb.2⟩⟩
  | ready hk =>
    have hcan : pool.state.CanCreate (tmpPath (store.requestPath id)) := ⟨hs.tmp, fun _ => hs.tmpPlace⟩
    rcases Fs.world_create hw with ⟨error, rfl, -, hcant⟩ | ⟨fd, rfl, -, hwriting, hlook⟩
    · exact absurd hcan (hcant rfl)
    · exact h.advance (.inr (.inl ⟨fd, [], hk fd, hwriting⟩)) (fun j hj hin => absurd hin (hapart rfl j hj))
        ⟨content, hs.write hv hlook, hcontent.imp_left fun hb => ⟨hb.1, (hk fd).ne_done, hb.2⟩⟩

/-- A call that is inside writes to its file, and renames it when its text is in it. -/
theorem Orderly.step_inside (hv : validateId id = .ok ()) (h : Orderly store id contents before pool) {op : Fs.Op}
    {k : Fs.Ans op → Rest} {ans : Fs.Ans op} {fd : Nat} {written : Bytes}
    (hi : Inside (store.requestPath id) (contents i) fd written (.ask op k))
    (hwriting : pool.state.Writing fd (tmpPath (store.requestPath id)) written)
    (hrest : pool.rest i = .ask op k) (hw : Fs.world false pool.state op ans s) :
    Orderly store id contents before ⟨update pool.rest i (k ans), s⟩ := by
  obtain ⟨content, hs, hcontent⟩ := h.stored
  have hothers (j : ι) (hj : j ≠ i) : ¬inside (pool.rest j) := fun hin =>
    hj (h.alone hin (hrest ▸ hi.inside))
  cases hi with
  | writing hne hk =>
    obtain ⟨n, hn, hwriting', hlook, ⟨rfl, hpos⟩ | ⟨hf, -⟩⟩ := Fs.world_write hwriting hw
    · have hin := hk n (hpos hne) hn
      exact h.advance (.inr (.inl ⟨fd, _, hin, hwriting'⟩)) (fun j hj hj' => absurd hj' (hothers j hj))
        ⟨content, hs.write hv hlook, hcontent.imp_left fun hb => ⟨hb.1, hin.ne_done, hb.2⟩⟩
    · cases hf
  | syncing hk =>
    obtain ⟨rfl, hans⟩ := Fs.world_sync hw
    cases hans rfl
    exact h.advance (.inr (.inl ⟨fd, _, hk, hwriting⟩)) (fun j hj hj' => absurd hj' (hothers j hj))
      ⟨content, hs, hcontent.imp_left fun hb => ⟨hb.1, hk.ne_done, hb.2⟩⟩
  | moving hk =>
    have hplace : pool.state.look (parent (store.requestPath id)) = some .dir := by
      rw [parent_requestPath hv]
      exact hs.place
    rcases Fs.world_rename hw with ⟨error, rfl, -, hcant⟩ | ⟨rfl, content', hcan, hlook⟩
    · exact absurd ⟨hwriting.look, by rw [hs.file]; exact nofun, hplace⟩ (hcant rfl _)
    · cases hwriting.look.symm.trans hcan.1
      exact h.advance (.inr (.inr hk)) (fun j hj hj' => absurd hj' (hothers j hj))
        ⟨_, hs.rename hv hlook, .inr ⟨i, rfl⟩⟩

theorem Orderly.step (hv : validateId id = .ok ()) (h : Orderly store id contents before pool)
    {action : ι × Fs.Choice} (hapart : Apart pool action) (hstep : pool.step performed action = some pool') :
    Orderly store id contents before pool' := by
  obtain ⟨i, c⟩ := action
  obtain ⟨op, k, ans, s, hrest, hans, rfl⟩ := Pool.step_cases hstep
  have hw : Fs.world false pool.state op ans s := world_of_performed hans
  have hstage := h.stage i
  rw [hrest] at hstage
  rcases hstage with hi | ⟨fd, written, hi, hwriting⟩ | hdone
  · refine h.step_early hv hi hrest (fun hc => hapart ?_) hw
    rwa [hrest]
  · exact h.step_inside hv hi hwriting hrest hw
  · cases hdone

/-- The stored file, in every run in which the temporary file is not created while
another call has it open. -/
theorem stored_of_apart {store : WorkspaceStore} {yaml : Yaml} {id : String} {requests : ι → RequestSpec}
    {texts : ι → String} {before : Bytes} {s : Fs} {pool : Pool ι Fs.Op Fs.Ans (Except WireSurgeError Unit) Fs}
    (hv : validateId id = .ok ()) (hs : Stored store id s before)
    (htexts : ∀ i, yaml.toYaml { requests i with id } = .ok (texts i))
    (hr : Lts.Reach (Pool.step performed) Apart (callers store yaml id requests s) pool) :
    ∃ content, pool.state.look (store.requestPath id) = some (.file content) ∧
      (content = before ∨ ∃ i, content = Str.encode (texts i).toList) ∧
      ((∃ i r, pool.rest i = .done r) → ∃ i, content = Str.encode (texts i).toList) := by
  have hearly (i : ι) : Early [store.workspaceFile, store.requestPath id] (store.requestPath id)
      (Str.encode (texts i).toList) ((callers store yaml id requests s).rest i) := early_updateRequest hv (htexts i)
  have horderly : Orderly store id (fun i => Str.encode (texts i).toList) before pool := by
    refine hr.inv (I := Orderly store id (fun i => Str.encode (texts i).toList) before) ?_
      fun _ _ _ h hapart hstep => h.step hv hapart hstep
    exact ⟨fun i => .inl (hearly i), fun hi => absurd hi (hearly _).not_inside,
      before, hs, .inl ⟨rfl, fun i => (hearly i).ne_done⟩⟩
  obtain ⟨content, hstored, hcontent⟩ := horderly.stored
  refine ⟨content, hstored.file, hcontent.imp_left And.left, fun ⟨i, r, hdone⟩ => hcontent.resolve_left fun hb => ?_⟩
  rcases horderly.stage i with hi | ⟨fd, written, hi, -⟩ | hi
  · rw [hdone] at hi
    cases hi
  · rw [hdone] at hi
    cases hi
  · exact hb.2 i hi

end

/-! ## Two calls at the same time -/

/-- How requests without headers and body are written, if nothing in them has to be quoted. -/
def plainYaml : Yaml where
  write r := .ok ("id: " ++ r.id ++ "\nname: " ++ r.name ++ "\nmethod: " ++ r.method ++ "\nurl: " ++ r.url ++
    "\nheaders: \x7b\x7d\n")
  read _ := .error ⟨"", ""⟩

def text (name : String) : String :=
  "id: req-a\nname: " ++ name ++ "\nmethod: GET\nurl: http://localhost\nheaders: \x7b\x7d\n"

/-- A request under two other names, and the calls that update it so. -/
def renamed : Fin 2 → RequestSpec := ![{ sampleRequest with name := "Alpha" }, { sampleRequest with name := "B" }]

def renamings : Pool (Fin 2) Fs.Op Fs.Ans (Except WireSurgeError Unit) Fs :=
  callers sampleStore plainYaml "req-a" renamed (sampleStore.withRequest "req-a" (Str.encode (text "A").toList))

instance [Fintype ι] (pool : Pool ι Fs.Op Fs.Ans (Except WireSurgeError Unit) Fs) (action : ι × Fs.Choice) :
    Decidable (Apart pool action) :=
  inferInstanceAs (Decidable (creates (pool.rest action.1) → ∀ j ≠ action.1, ¬inside (pool.rest j)))

/-- Both have the temporary file open, and the first one renames what both have written. -/
theorem updates_mixed : ∃ pool, Lts.Reach (Pool.step performed) Lts.Any renamings pool ∧
    (∀ i, (pool.rest i).next.isNone) ∧
    ∃ content, pool.state.look (sampleStore.requestPath "req-a") = some (.file content) ∧
      content ≠ Str.encode (text "Alpha").toList ∧ content ≠ Str.encode (text "B").toList ∧
      content ≠ Str.encode (text "A").toList := by
  have hrun : ∃ pool ∈ Lts.run (Pool.step performed) renamings
      ([0, 0, 0, 1, 1, 1, 0, 1, 0, 0, 1, 1].map fun i => (i, .plain)), (∀ i, (pool.rest i).next.isNone) ∧
      pool.state.look (sampleStore.requestPath "req-a") =
        some (.file (Str.encode (text "B" ++ " \x7b\x7d\n").toList)) := by
    decide +kernel
  obtain ⟨pool, hpool, hdone, hlook⟩ := hrun
  exact ⟨pool, .of_run hpool, hdone, _, hlook, by decide +kernel, by decide +kernel, by decide +kernel⟩

/-- One call after the other, in the same workspace. -/
theorem stored_of_apart_sample : ∃ pool, Lts.Reach (Pool.step performed) Apart renamings pool ∧
    (∀ i, (pool.rest i).next.isNone) ∧
    ∃ content, pool.state.look (sampleStore.requestPath "req-a") = some (.file content) ∧
      ∃ i, content = Str.encode ((![text "Alpha", text "B"] : Fin 2 → String) i).toList := by
  have hrun : ∃ pool ∈ Lts.run (Pool.step performed) renamings
      ([0, 0, 0, 1, 0, 0, 0, 1, 1, 1, 1, 1].map fun i => (i, .plain)), ∀ i, (pool.rest i).next.isNone := by
    decide +kernel
  obtain ⟨pool, hpool, hdone⟩ := hrun
  have hr : Lts.Reach (Pool.step performed) Apart renamings pool := .of_along hpool (by decide +kernel)
  have hs : Stored sampleStore "req-a" (sampleStore.withRequest "req-a" (Str.encode (text "A").toList))
      (Str.encode (text "A").toList) :=
    ⟨by decide +kernel, by decide +kernel, by decide +kernel, by decide +kernel, by decide +kernel⟩
  have htexts : ∀ i, plainYaml.toYaml { renamed i with id := "req-a" } =
      .ok ((![text "Alpha", text "B"] : Fin 2 → String) i) := by
    decide +kernel
  obtain ⟨content, hlook, -, hcontent⟩ := stored_of_apart rfl hs htexts hr
  refine ⟨pool, hr, hdone, content, hlook, hcontent ?_⟩
  have hnext := hdone 0
  cases hrest : pool.rest 0 with
  | done r => exact ⟨0, r, hrest⟩
  | ask op k =>
    rw [hrest] at hnext
    cases hnext

end WireSurge.Storage
