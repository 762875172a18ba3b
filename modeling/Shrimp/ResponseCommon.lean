import Shrimp.Utils

/-!
# Responses

The functions of `response_common.hpp` and `response_common.cpp` the transform manager and the
HTTP-server answer with.
A response is what the HTTP-server is told to send: the status line, what becomes of the connection,
the header fields in the order they were appended, and the body.
-/

namespace Shrimp

/-- The `restinio::http_status_line_t`s in use. -/
inductive HttpStatusLine
  | statusOk
  | statusBadRequest
  | statusForbidden
  | statusNotFound
  | statusServiceUnavailable
  | statusGatewayTimeOut
deriving DecidableEq, Repr

/-- `connection_status_t`: should the connection be closed after sending a response? -/
inductive ConnectionStatus
  | autodetect
  | keep
  | close
deriving DecidableEq, Repr

/-- `http_header::image_src_t`. -/
inductive ImageSrc
  | cache
  | transform
  | sendfile
deriving DecidableEq, Repr

/-- The names of header fields. -/
inductive HttpField
  | server
  | date
  | lastModified
  | accessControlAllowOrigin
  | contentType
  | named (name : String)
deriving DecidableEq, Repr

/-- The values of header fields: a text, the time of sending, a given time, or a number of
microseconds printed as milliseconds. -/
inductive HttpFieldValue
  | text (s : String)
  | now
  | dateField (t : Int)
  | usToMs (us : Int)
deriving DecidableEq, Repr

/-- `header_fields_list_t`. -/
abbrev HeaderFieldsList := List (HttpField × HttpFieldValue)

/-- The body of a response, for `sendfile` the content of the file of that name. -/
inductive Body
  | empty
  | text (s : String)
  | image (blob : DatasizableBlob)
  | sendfile (name : CxxString)
deriving DecidableEq, Repr

/-- A response. `keepAlive` is `none` where the code leaves the connection to the HTTP-server. -/
structure Response where
  statusLine : HttpStatusLine
  keepAlive : Option Bool
  headerFields : HeaderFieldsList
  body : Body
deriving DecidableEq, Repr

/-- `resp.append_header`. -/
def Response.appendHeader (resp : Response) (field : HttpField) (value : HttpFieldValue) :
    Response :=
  { resp with headerFields := resp.headerFields ++ [(field, value)] }

/-- The `Content-Type` of a response. -/
def Response.contentType (resp : Response) : Option HttpFieldValue :=
  (resp.headerFields.find? fun hf => hf.1 = .contentType).map Prod.snd

/-- `req->create_response`. -/
def createResponse (statusLine : HttpStatusLine) : Response := ⟨statusLine, none, [], .empty⟩

/-- `set_common_header_fields`. -/
def setCommonHeaderFields (resp : Response) : Response :=
  (resp.appendHeader .server (.text "Shrimp draft server")).appendHeader .date .now

/-- `set_common_header_fields_for_image_resp`. -/
def setCommonHeaderFieldsForImageResp (lastModified : Int) (resp : Response) : Response :=
  (((setCommonHeaderFields resp).appendHeader .lastModified (.dateField lastModified)).appendHeader
    .accessControlAllowOrigin (.text "*")).appendHeader (.named "Access-Control-Expose-Headers")
    (.text ("Shrimp-Processing-Time, Shrimp-Resize-Time, " ++
      "Shrimp-Encoding-Time, Shrimp-Image-Src"))

/-- `make_response_object`. -/
def makeResponseObject (req : RequestHandle) (statusLine : HttpStatusLine)
    (connStatus : ConnectionStatus) : Response :=
  let resp := setCommonHeaderFields (createResponse statusLine)
  match connStatus with
  | .autodetect => { resp with keepAlive := some req.shouldKeepAlive }
  | .keep => { resp with keepAlive := some true }
  | .close => { resp with keepAlive := some false }

/-- `do_404_response`. -/
def do404Response (req : RequestHandle) : Response :=
  makeResponseObject req .statusNotFound .autodetect

/-- `do_400_response`. -/
def do400Response (req : RequestHandle) : Response :=
  makeResponseObject req .statusBadRequest .autodetect

/-- The part `do_403_response` and `do_200_plaintext_response` share. -/
def Response.plaintext (resp : Response) (bodyContent : String) : Response :=
  { resp.appendHeader .contentType (.text "text/plain; charset=utf-8") with
    body := .text bodyContent }

/-- `do_403_response`. -/
def do403Response (req : RequestHandle) (bodyContent : String) : Response :=
  (makeResponseObject req .statusForbidden .close).plaintext bodyContent

/-- `do_200_plaintext_response`. -/
def do200PlaintextResponse (req : RequestHandle) (bodyContent : String) : Response :=
  (makeResponseObject req .statusOk .autodetect).plaintext bodyContent

/-- `do_503_response`. -/
def do503Response (req : RequestHandle) : Response :=
  makeResponseObject req .statusServiceUnavailable .close

/-- `do_504_response`. -/
def do504Response (req : RequestHandle) : Response :=
  makeResponseObject req .statusGatewayTimeOut .close

/-! The names of `http_header`. -/

def shrimpTotalProcessingTimeHf : HttpField := .named "Shrimp-Processing-Time"
def shrimpResizeTimeHf : HttpField := .named "Shrimp-Resize-Time"
def shrimpEncodingTimeHf : HttpField := .named "Shrimp-Encoding-Time"
def shrimpImageSrcHf : HttpField := .named "Shrimp-Image-Src"

/-- `image_src_to_str`. -/
def imageSrcToStr : ImageSrc → String
  | .cache => "cache"
  | .transform => "transform"
  | .sendfile => "sendfile"

/-- `image_content_type_from_img_format`. -/
def imageContentTypeFromImgFormat : ImageFormat → String
  | .gif => "image/gif"
  | .jpeg => "image/jpeg"
  | .png => "image/png"
  | .webp => "image/webp"
  | .heic => "image/heic"

/-- `serve_transformed_image`. -/
def serveTransformedImage (blob : DatasizableBlob) (imgFormat : ImageFormat) (imageSrc : ImageSrc)
    (headerFields : HeaderFieldsList) : Response :=
  let resp := ((setCommonHeaderFieldsForImageResp blob.lastModifiedAt
    (createResponse .statusOk)).appendHeader .contentType
      (.text (imageContentTypeFromImgFormat imgFormat))).appendHeader shrimpImageSrcHf
        (.text (imageSrcToStr imageSrc))
  headerFields.foldl (fun resp hf => resp.appendHeader hf.1 hf.2) { resp with body := .image blob }

/-- `serve_as_regular_file`, where `sendfile` gives the time of the last modification of a file, or
`none` if it cannot be opened. -/
def serveAsRegularFile (sendfile : CxxString → Option Int) (rootDir : CxxString)
    (req : HttpRequest) (imageFormat : ImageFormat) : Response :=
  let fullPath := makeFullPath rootDir req.path
  match sendfile fullPath with
  | some lastModified =>
    { ((setCommonHeaderFieldsForImageResp lastModified
        (createResponse .statusOk)).appendHeader .contentType
          (.text (imageContentTypeFromImgFormat imageFormat))).appendHeader shrimpImageSrcHf
            (.text (imageSrcToStr .sendfile)) with
      body := .sendfile fullPath }
  | none => do404Response req.handle

/-! ## What the responses say -/

/-- Header fields that are appended one after another come behind those that were there. -/
theorem foldl_appendHeader (headerFields : HeaderFieldsList) (resp : Response) :
    headerFields.foldl (fun resp hf => resp.appendHeader hf.1 hf.2) resp =
      { resp with headerFields := resp.headerFields ++ headerFields } := by
  induction headerFields generalizing resp with
  | nil => simp
  | cons hf headerFields ih =>
    rw [List.foldl_cons, ih]
    simp [Response.appendHeader]

section Image
variable (blob : DatasizableBlob) (imgFormat : ImageFormat) (imageSrc : ImageSrc)
  (headerFields : HeaderFieldsList)

@[simp] theorem serveTransformedImage_statusLine :
    (serveTransformedImage blob imgFormat imageSrc headerFields).statusLine = .statusOk := by
  rw [serveTransformedImage, foldl_appendHeader]; rfl

@[simp] theorem serveTransformedImage_body :
    (serveTransformedImage blob imgFormat imageSrc headerFields).body = .image blob := by
  rw [serveTransformedImage, foldl_appendHeader]

/-- Additional header fields do not hide the content type. -/
@[simp] theorem serveTransformedImage_contentType :
    (serveTransformedImage blob imgFormat imageSrc headerFields).contentType =
      some (.text (imageContentTypeFromImgFormat imgFormat)) := by
  rw [serveTransformedImage, foldl_appendHeader]; rfl

end Image

/-- The only file that is sent is the one named by the root directory and the path. -/
theorem eq_of_serveAsRegularFile_body {sendfile : CxxString → Option Int} {rootDir : CxxString}
    {req : HttpRequest} {imageFormat : ImageFormat} {name : CxxString}
    (h : (serveAsRegularFile sendfile rootDir req imageFormat).body = .sendfile name) :
    name = makeFullPath rootDir req.path := by
  unfold serveAsRegularFile at h
  cases hfile : sendfile (makeFullPath rootDir req.path) with
  | none =>
    simp only [hfile] at h
    cases h
  | some lastModified =>
    simp only [hfile] at h
    exact (Body.sendfile.inj h).symm

@[simp] theorem do404Response_statusLine (req : RequestHandle) :
    (do404Response req).statusLine = .statusNotFound := rfl
@[simp] theorem do400Response_statusLine (req : RequestHandle) :
    (do400Response req).statusLine = .statusBadRequest := rfl
@[simp] theorem do403Response_statusLine (req : RequestHandle) (bodyContent : String) :
    (do403Response req bodyContent).statusLine = .statusForbidden := rfl
@[simp] theorem do200PlaintextResponse_statusLine (req : RequestHandle) (bodyContent : String) :
    (do200PlaintextResponse req bodyContent).statusLine = .statusOk := rfl
@[simp] theorem do503Response_statusLine (req : RequestHandle) :
    (do503Response req).statusLine = .statusServiceUnavailable := rfl
@[simp] theorem do504Response_statusLine (req : RequestHandle) :
    (do504Response req).statusLine = .statusGatewayTimeOut := rfl

end Shrimp
