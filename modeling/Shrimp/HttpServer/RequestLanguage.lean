import Shrimp.HttpServer

/-!
# The requests that are accepted

Which requests for an image are sent to the transform manager, which get the file as it is, and
which are refused, said of the path, the extension and the parameters of the query alone.
`request_language` compares this with the handler.
-/

namespace Shrimp

namespace HttpServer

open Execution

/-! ## Formats -/

/-- The names of a format. -/
def formatNames : ImageFormat → List String
  | .gif => ["gif"]
  | .jpeg => ["jpg", "jpeg"]
  | .png => ["png"]
  | .webp => ["webp"]
  | .heic => ["heic"]

/-- The name is one of the format, in letters of any case. -/
def NamesFormat (name : CxxString) (format : ImageFormat) : Prop :=
  name.map tolower ∈ (formatNames format).map cxxString

/-- Comparing element by element what `f` makes of them. -/
theorem isEqv_map_iff {α β : Type} [DecidableEq β] (f : α → β) : ∀ {l l' : List α},
    l.isEqv l' (fun a b => decide (f a = f b)) = true ↔ l.map f = l'.map f
  | [], [] => by simp [List.isEqv]
  | [], _ :: _ => by simp [List.isEqv]
  | _ :: _, [] => by simp [List.isEqv]
  | a :: l, b :: l' => by simp [List.isEqv, isEqv_map_iff f]

/-- `image_format_from_extension` finds a format exactly by its names, whatever the case of their
letters. -/
theorem imageFormatFromExtension_eq_some {ext : CxxString} {format : ImageFormat} :
    imageFormatFromExtension ext = some format ↔ NamesFormat ext format := by
  have hlower : ∀ what ∈ ["jpg", "jpeg", "png", "gif", "webp", "heic"],
      (cxxString what).map tolower = cxxString what := by decide
  simp only [List.forall_mem_cons, List.not_mem_nil, false_implies, forall_const,
    and_true] at hlower
  obtain ⟨hjpg, hjpeg, hpng, hgif, hwebp, hheic⟩ := hlower
  unfold imageFormatFromExtension NamesFormat
  simp only [Bool.or_eq_true, isEqv_map_iff, hjpg, hjpeg, hpng, hgif, hwebp, hheic]
  generalize ext.map tolower = name
  constructor
  · intro h
    split_ifs at h with hname hname hname hname hname <;> cases h <;> simp [formatNames, hname]
  · intro h
    -- No name belongs to two formats.
    cases format <;> simp only [formatNames, List.map_cons, List.map_nil, List.mem_cons,
      List.not_mem_nil, or_false] at h
    case jpeg => rcases h with rfl | rfl <;> decide
    all_goals subst h; decide

/-- The name of the target format: `target-format` or else the extension. -/
def formatName (lib : Restinio) (ext : CxxString) (q : QueryStringParams) : CxxString :=
  (lib.getParam q "target-format").getD ext

/-! ## Sizes -/

/-- The parameters that ask for a size, and the modes they stand for. -/
def sizeParameters : List (String × ResizeParams.Mode) :=
  [("width", .width), ("height", .height), ("max", .longest)]

/-- Those of them a query has. -/
def sizesGiven (lib : Restinio) (q : QueryStringParams) : List (ResizeParams.Mode × CxxString) :=
  sizeParameters.filterMap fun p => (lib.getParam q p.1).map fun text => (p.2, text)

/-- At most one size is given, and it is a number from 1 to 5000. -/
def GivesParams (lib : Restinio) (q : QueryStringParams) (params : ResizeParams) : Prop :=
  sizesGiven lib q = [] ∧ params = .keepOriginal ∨
  ∃ text, sizesGiven lib q = [(params.mode, text)] ∧ lib.castToUInt32 text = .ok params.value ∧
    1 ≤ params.value.toNat ∧ params.value.toNat ≤ 5000

/-- The parameters are made of the three values and checked. -/
theorem resizeOpParams_eq_ok_iff {lib : Restinio} {q : QueryStringParams} {params : ResizeParams} :
    resizeOpParams lib q = .ok params ↔ ∃ width height maxSide,
      lib.optValue q "width" = .ok width ∧ lib.optValue q "height" = .ok height ∧
      lib.optValue q "max" = .ok maxSide ∧ ResizeParams.make width height maxSide = .ok params ∧
      ResizeParamsConstraints.check {} params = .ok () := by
  unfold resizeOpParams
  simp only [bind_eq_ok, pure_eq_ok]
  constructor
  · rintro ⟨width, hwidth, height, hheight, maxSide, hmax, _, hmake, _, hcheck, ⟨⟩⟩
    exact ⟨width, height, maxSide, hwidth, hheight, hmax, hmake, hcheck⟩
  · rintro ⟨width, height, maxSide, hwidth, hheight, hmax, hmake, hcheck⟩
    exact ⟨width, hwidth, height, hheight, maxSide, hmax, params, hmake, (), hcheck, rfl⟩

/-- The sizes a query gives, one parameter after the other. -/
theorem sizesGiven_eq (lib : Restinio) (q : QueryStringParams) : sizesGiven lib q =
    ((lib.getParam q "width").map fun text => (.width, text)).toList ++
    ((lib.getParam q "height").map fun text => (.height, text)).toList ++
    ((lib.getParam q "max").map fun text => (.longest, text)).toList := by
  unfold sizesGiven sizeParameters
  simp only [List.filterMap_cons, List.filterMap_nil]
  cases lib.getParam q "width" <;> cases lib.getParam q "height" <;>
    cases lib.getParam q "max" <;> rfl

/-- The parameters of a query are those it gives. -/
theorem resizeOpParams_eq_ok {lib : Restinio} {q : QueryStringParams} {params : ResizeParams} :
    resizeOpParams lib q = .ok params ↔ GivesParams lib q params := by
  rw [resizeOpParams_eq_ok_iff, GivesParams, sizesGiven_eq]
  simp only [Restinio.optValue_eq_ok, ResizeParams.make_eq_ok,
    ResizeParamsConstraints.check_default_eq_ok]
  -- With two sizes given neither side holds; with one, both speak of its mode and value.
  cases lib.getParam q "width" <;> cases lib.getParam q "height" <;>
    cases lib.getParam q "max" <;> simp
  case none.none.none =>
    rintro rfl
    exact .inl rfl
  all_goals grind

/-! ## Requests -/

/-- The path has neither two dots nor two slashes in a row. -/
def LegalPath (path : CxxString) : Prop := ¬ cxxString ".." <:+: path ∧ ¬ cxxString "//" <:+: path

/-- What a request must be like to be sent to the transform manager. -/
structure Accepted (lib : Restinio) (path ext : CxxString) (q : QueryStringParams)
    (format : ImageFormat) (params : ResizeParams) : Prop where
  path : LegalPath path
  format : NamesFormat (formatName lib ext q) format
  query : q ≠ []
  operation : lib.getParam q "op" = none ∧ (lib.getParam q "target-format").isSome ∨
    lib.getParam q "op" = some (cxxString "resize")
  params : GivesParams lib q params

/-- What a request must be like to get the file as it is. -/
structure AsksForFile (lib : Restinio) (path ext : CxxString) (q : QueryStringParams)
    (format : ImageFormat) : Prop where
  path : LegalPath path
  format : NamesFormat (formatName lib ext q) format
  query : q = []

/-- The response serves the original file: the file of that name under the root directory with the
content type of the format, or 404 if there is none. -/
structure ServesOriginal (lib : Restinio) (rootDir : CxxString) (req : HttpRequest)
    (format : ImageFormat) (resp : Response) : Prop where
  served : resp = serveAsRegularFile lib.sendfile rootDir req format
  found : ∀ lastModified, lib.sendfile (makeFullPath rootDir req.path) = some lastModified →
    resp.statusLine = .statusOk ∧ resp.body = .sendfile (makeFullPath rootDir req.path) ∧
      resp.contentType = some (.text (imageContentTypeFromImgFormat format))
  missing : lib.sendfile (makeFullPath rootDir req.path) = none → resp.statusLine = .statusNotFound

/-- The one thing done with a request is what its path, extension and query ask for. -/
structure RequestLanguage (lib : Restinio) (rootDir ext : CxxString) (req : HttpRequest)
    (q : QueryStringParams) (d : Disposition) : Prop where
  forwarded : ∀ cmd, d = .resizeRequest cmd ↔ ∃ format params,
    Accepted lib req.path ext q format params ∧
      cmd = ⟨some req.handle, req.path, format, params⟩
  file : ∀ format, AsksForFile lib req.path ext q format →
    ∃ resp, d = .response req.handle resp ∧ ServesOriginal lib rootDir req format resp
  refused : (¬ ∃ format params, Accepted lib req.path ext q format params) →
    (¬ ∃ format, AsksForFile lib req.path ext q format) →
    ∃ resp, d = .response req.handle resp ∧ resp = do400Response req.handle ∧
      resp.statusLine = .statusBadRequest

section Ways
variable {lib : Restinio} {rootDir ext : CxxString} {req : HttpRequest} {q : QueryStringParams}

/-- The format is detected by the name of the target format. -/
theorem tryDetectTargetImageFormat_eq_some {format : ImageFormat} :
    tryDetectTargetImageFormat ext (lib.getParam q "target-format") = some format ↔
      NamesFormat (formatName lib ext q) format := by
  rw [← imageFormatFromExtension_eq_some]
  unfold formatName
  cases lib.getParam q "target-format" <;> rfl

/-- `serve_as_regular_file` serves the original file. -/
theorem servesOriginal_serveAsRegularFile {format : ImageFormat} :
    ServesOriginal lib rootDir req format
      (serveAsRegularFile lib.sendfile rootDir req format) where
  served := rfl
  found lastModified hfile := by
    rw [serveAsRegularFile, hfile]
    exact ⟨rfl, rfl, rfl⟩
  missing hfile := by
    rw [serveAsRegularFile, hfile]
    exact do404Response_statusLine _

/-- A request that asks for nothing there is may be refused. -/
theorem RequestLanguage.of_refused
    (hresize : ∀ format params, ¬ Accepted lib req.path ext q format params)
    (hfile : ∀ format, ¬ AsksForFile lib req.path ext q format) :
    RequestLanguage lib rootDir ext req q (.response req.handle (do400Response req.handle)) where
  forwarded _ := iff_of_false nofun fun ⟨format, params, h, _⟩ => hresize format params h
  file format h := absurd h (hfile format)
  refused _ _ := ⟨_, rfl, rfl, do400Response_statusLine _⟩

/-- A request for a file may get the file. -/
theorem RequestLanguage.of_file {format : ImageFormat} (h : AsksForFile lib req.path ext q format) :
    RequestLanguage lib rootDir ext req q
      (.response req.handle (serveAsRegularFile lib.sendfile rootDir req format)) where
  forwarded _ := iff_of_false nofun fun ⟨_, _, h', _⟩ => h'.query h.query
  file format' h' := by
    have hsome := imageFormatFromExtension_eq_some.2 h.format
    cases hsome.symm.trans (imageFormatFromExtension_eq_some.2 h'.format)
    exact ⟨_, rfl, servesOriginal_serveAsRegularFile⟩
  refused _ hfile := absurd ⟨format, h⟩ hfile

/-- An accepted request may be sent to the transform manager. -/
theorem RequestLanguage.of_resize {format : ImageFormat} {params : ResizeParams}
    (h : Accepted lib req.path ext q format params) : RequestLanguage lib rootDir ext req q
      (.resizeRequest ⟨some req.handle, req.path, format, params⟩) where
  forwarded cmd := by
    constructor
    · rintro ⟨⟩
      exact ⟨format, params, h, rfl⟩
    · rintro ⟨format', params', h', rfl⟩
      -- A request is accepted with one format and one set of parameters only.
      cases (imageFormatFromExtension_eq_some.2 h.format).symm.trans
        (imageFormatFromExtension_eq_some.2 h'.format)
      cases (resizeOpParams_eq_ok.2 h.params).symm.trans (resizeOpParams_eq_ok.2 h'.params)
      rfl
  file _ h' := absurd h'.query h.query
  refused hresize _ := absurd ⟨format, params, h⟩ hresize

end Ways

/-- A request whose query string can be parsed ends with one disposition, which is a message to the
transform manager exactly if the request is accepted. -/
theorem request_language (lib : Restinio) (rootDir ext : CxxString) (req : HttpRequest)
    (q : QueryStringParams) (hquery : lib.parseQuery req.query = .ok q) : ∃ d,
    (transformOpHandler lib rootDir ext).call req = .ok (.ok (), ⟨none, [d]⟩) ∧
      RequestLanguage lib rootDir ext req q d := by
  obtain ⟨result, s, hcall, hway⟩ := call_transformOpHandler lib req rootDir ext
  have hlegal (h : hasIllegalPathComponents req.path = false) : LegalPath req.path :=
    hasIllegalPathComponents_eq_false.1 h
  cases hway with
  | illegalPath hpath =>
    have hnot : ¬ LegalPath req.path := fun h => by
      rw [hasIllegalPathComponents_eq_false.2 h] at hpath
      cases hpath
    exact ⟨_, hcall, .of_refused (fun _ _ h => hnot h.path) fun _ h => hnot h.path⟩
  | badQuery hpath hquery' => cases hquery.symm.trans hquery'
  | unknownFormat hpath hquery' hformat =>
    cases hquery.symm.trans hquery'
    have hnot (format : ImageFormat) (h : NamesFormat (formatName lib ext q) format) : False := by
      rw [tryDetectTargetImageFormat_eq_some.2 h] at hformat
      cases hformat
    exact ⟨_, hcall, .of_refused (fun _ _ h => hnot _ h.format) fun _ h => hnot _ h.format⟩
  | original hpath hquery' hformat =>
    cases hquery.symm.trans hquery'
    rw [← lib.getParam_nil "target-format"] at hformat
    exact ⟨_, hcall, .of_file ⟨hlegal hpath, tryDetectTargetImageFormat_eq_some.1 hformat, rfl⟩⟩
  | otherOperation hpath hquery' hne hop hresize =>
    cases hquery.symm.trans hquery'
    refine ⟨_, hcall, .of_refused (fun _ _ h => ?_) fun _ h => hne h.query⟩
    rcases h.operation with ⟨hnone, -⟩ | hsome
    · cases hop.symm.trans hnone
    · exact hresize (Option.some.inj (hop.symm.trans hsome))
  | noOperation hpath hquery' hne hop htarget =>
    cases hquery.symm.trans hquery'
    refine ⟨_, hcall, .of_refused (fun _ _ h => ?_) fun _ h => hne h.query⟩
    rcases h.operation with ⟨-, htarget'⟩ | hsome
    · rw [htarget] at htarget'
      cases htarget'
    · cases hop.symm.trans hsome
  | badParams hpath hquery' hne hparams =>
    cases hquery.symm.trans hquery'
    refine ⟨_, hcall, .of_refused (fun _ _ h => ?_) fun _ h => hne h.query⟩
    cases hparams.symm.trans (resizeOpParams_eq_ok.2 h.params)
  | resize hpath hquery' hne hformat hop hparams =>
    cases hquery.symm.trans hquery'
    exact ⟨_, hcall, .of_resize ⟨hlegal hpath, tryDetectTargetImageFormat_eq_some.1 hformat, hne,
      hop.symm, resizeOpParams_eq_ok.1 hparams⟩⟩

/-- A photo is asked for with its longest side scaled to 100 pixels. -/
theorem request_language_max : ∃ d,
    (transformOpHandler (.plain fun _ => none) [] (cxxString "jpg")).call
      ⟨⟨0, true⟩, cxxString "/photo.jpg", cxxString "op=resize&max=100"⟩ =
        .ok (.ok (), ⟨none, [d]⟩) ∧
    RequestLanguage (.plain fun _ => none) [] (cxxString "jpg")
      ⟨⟨0, true⟩, cxxString "/photo.jpg", cxxString "op=resize&max=100"⟩
      [(cxxString "op", cxxString "resize"), (cxxString "max", cxxString "100")] d :=
  request_language (.plain fun _ => none) [] (cxxString "jpg")
    ⟨⟨0, true⟩, cxxString "/photo.jpg", cxxString "op=resize&max=100"⟩
    [(cxxString "op", cxxString "resize"), (cxxString "max", cxxString "100")] (by decide +kernel)

example : (transformOpHandler (.plain fun _ => none) [] (cxxString "jpg")).call
    ⟨⟨0, true⟩, cxxString "/photo.jpg", cxxString "op=resize&max=100"⟩ =
      .ok (.ok (), ⟨none, [.resizeRequest ⟨some ⟨0, true⟩, cxxString "/photo.jpg", .jpeg,
        ⟨.longest, 100, nofun⟩⟩]⟩) := by decide +kernel

end HttpServer

end Shrimp
