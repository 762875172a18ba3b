import Shrimp.HttpServer
import Shrimp.Lib.LexicalPath
import Shrimp.Transformer
import Shrimp.TransformManager.Answers

/-!
# The files that are read

A file is named by the root directory and the path of a request, one put behind the other. The
handler tests the raw path for two dots in a row; `served_paths` says what this means for the
components of the name, for the files that are sent as they are and for those the workers read in
any run of the manager.
-/

namespace Shrimp

open Execution

/-! ## Names of files -/

/-- The components of a path, without empty ones and `.`. -/
def pathComponents (path : CxxString) : List CxxString :=
  LexicalPath.components '/'.val.toUInt8 '.'.val.toUInt8 path

/-- The components that are left where `..` removes the one before. -/
def resolvePath (path : CxxString) : List CxxString :=
  LexicalPath.resolve '/'.val.toUInt8 '.'.val.toUInt8 path

/-- The name leads from the root directory down the components of the path. -/
def ResolvesUnder (rootDir path name : CxxString) : Prop :=
  resolvePath name = resolvePath rootDir ++ pathComponents path

/-- Routes begin with a slash. -/
def StartsWithSlash (path : CxxString) : Prop := ∃ rest, path = '/'.val.toUInt8 :: rest

/-- The path of a request that passed the test of the handler leads down from the root directory,
whatever this is. -/
theorem resolvesUnder_makeFullPath (rootDir : CxxString) {path : CxxString}
    (hslash : StartsWithSlash path)
    (hlegal : HttpServer.hasIllegalPathComponents path = false) :
    ResolvesUnder rootDir path (makeFullPath rootDir path) := by
  obtain ⟨rest, rfl⟩ := hslash
  have hdots : ¬ ['.'.val.toUInt8, '.'.val.toUInt8] <:+: rest := fun h =>
    (HttpServer.hasIllegalPathComponents_eq_false.1 hlegal).1
      (h.trans (List.suffix_cons _ rest).isInfix)
  unfold ResolvesUnder resolvePath pathComponents makeFullPath
  rw [LexicalPath.resolve_append hdots, LexicalPath.components_cons_sep]

example : resolvePath (makeFullPath (cxxString "/srv/img") (cxxString "/a/./b.jpg")) =
    ["srv", "img", "a", "b.jpg"].map cxxString := by decide

/-! ## The files of a run -/

namespace World

variable {clk : Clock} {workers : List Mbox} {s : ListWorld}

/-- A job is sent to a worker only for a request that arrived. -/
theorem requestKey_of_job {actions : List Action} {w : World}
    (hrun : run (step clk) (init workers) actions = .ok w) {job : Transformer.ResizeRequest}
    (hjob : job ∈ w.env.transformerRequests) : ∃ a ∈ actions, a.requestKey = some job.key := by
  have href := refines_of_run hrun
  have hs := ListWorld.inOrder_foldl clk workers actions
  rw [href.env] at hjob
  have hkey : job.key ∈ keys (actions.foldl (ListWorld.next clk) (.init workers)).inprogress :=
    (hs.protocol.inprogress job.key).2
      (List.mem_append_left _ (List.mem_append_left _ (List.mem_map_of_mem hjob)))
  obtain ⟨e, he, hkey⟩ := List.mem_map.1 hkey
  have hreceived := received_of_mem hs (List.mem_append_right _ he)
  rw [hkey] at hreceived
  exact (ListWorld.receivedFrom_foldl clk workers actions).exists_action hreceived

end World

namespace HttpServer

variable {lib : Restinio} {rootDir : CxxString}

/-- What the handler for images does with a request. -/
def HandlesAs (lib : Restinio) (rootDir : CxxString) (req : HttpRequest) (d : Disposition) : Prop :=
  ∃ ext result s, (transformOpHandler lib rootDir ext).call req = .ok (result, s) ∧ d ∈ s.done

/-- The request with this key was sent by the handler for images. -/
def Forwarded (lib : Restinio) (rootDir : CxxString) (key : ResizeRequestKey) : Prop :=
  ∃ req cmd, StartsWithSlash req.path ∧ HandlesAs lib rootDir req (.resizeRequest cmd) ∧
    cmd.requestKey = key

/-- A message to the manager names the path of the request, which passed the test. -/
theorem HandlesAs.resizeRequest {req : HttpRequest} {cmd : ResizeRequest}
    (h : HandlesAs lib rootDir req (.resizeRequest cmd)) :
    cmd.image = req.path ∧ hasIllegalPathComponents req.path = false := by
  obtain ⟨ext, result, s, hcall, hd⟩ := h
  obtain ⟨result', s', hcall', hway⟩ := call_transformOpHandler lib req rootDir ext
  cases Except.ok.inj (hcall.symm.trans hcall')
  cases hway with
  | resize hpath =>
    cases List.mem_singleton.1 hd
    exact ⟨rfl, hpath⟩
  | badQuery => cases hd
  | _ => cases List.mem_singleton.1 hd

/-- A file is sent only for a path that passed the test, and it is named by that path. -/
theorem HandlesAs.sendfile {req : HttpRequest} {handle : RequestHandle} {resp : Response}
    {name : CxxString} (h : HandlesAs lib rootDir req (.response handle resp))
    (hbody : resp.body = .sendfile name) :
    name = makeFullPath rootDir req.path ∧ hasIllegalPathComponents req.path = false := by
  obtain ⟨ext, result, s, hcall, hd⟩ := h
  obtain ⟨result', s', hcall', hway⟩ := call_transformOpHandler lib req rootDir ext
  cases Except.ok.inj (hcall.symm.trans hcall')
  cases hway with
  | original hpath =>
    cases List.mem_singleton.1 hd
    exact ⟨eq_of_serveAsRegularFile_body hbody, hpath⟩
  | badQuery => cases hd
  | resize => cases List.mem_singleton.1 hd
  | _ =>
    cases List.mem_singleton.1 hd
    cases hbody

/-- All files that are read are named by the root directory and the path of a request, and lie below
the root directory. -/
structure ServedPaths (lib : Restinio) (rootDir : CxxString) : Prop where
  /-- The files that are sent as they are. -/
  served : ∀ req handle resp name, StartsWithSlash req.path →
    HandlesAs lib rootDir req (.response handle resp) → resp.body = .sendfile name →
    name = makeFullPath rootDir req.path ∧ ResolvesUnder rootDir req.path name
  /-- The manager is sent the path as it is. -/
  forwarded : ∀ req cmd, HandlesAs lib rootDir req (.resizeRequest cmd) → cmd.image = req.path
  /-- The files of the jobs of all workers, at any time. -/
  loaded : ∀ clk workers actions w,
    run (World.step clk) (World.init workers) actions = .ok w →
    (∀ a ∈ actions, ∀ key, a.requestKey = some key → Forwarded lib rootDir key) →
    ∀ job ∈ w.env.transformerRequests,
      (∀ (Image : Type) (m : Magick Image), Transformer.loadImage m rootDir job.key.path =
        m.read (makeFullPath rootDir job.key.path)) ∧
      ResolvesUnder rootDir job.key.path (makeFullPath rootDir job.key.path)

/-- Whatever the root directory and whatever RESTinio makes of the requests, no path leads out of
the root directory. -/
theorem served_paths (lib : Restinio) (rootDir : CxxString) : ServedPaths lib rootDir where
  served req handle resp name hslash h hbody := by
    obtain ⟨rfl, hpath⟩ := h.sendfile hbody
    exact ⟨rfl, resolvesUnder_makeFullPath rootDir hslash hpath⟩
  forwarded req cmd h := h.resizeRequest.1
  loaded clk workers actions w hrun hforwarded job hjob := by
    obtain ⟨a, ha, hkey⟩ := World.requestKey_of_job hrun hjob
    obtain ⟨req, cmd, hslash, hhandles, hcmd⟩ := hforwarded a ha job.key hkey
    obtain ⟨himage, hpath⟩ := hhandles.resizeRequest
    have hjobPath : job.key.path = req.path := by
      rw [← hcmd, ← himage]
      rfl
    rw [hjobPath]
    exact ⟨fun _ _ => rfl, resolvesUnder_makeFullPath rootDir hslash hpath⟩

end HttpServer

end Shrimp
