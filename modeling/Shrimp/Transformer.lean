import Shrimp.Lib.Execution
import Shrimp.Transforms.ResultSize
import Shrimp.TransformManager.World

/-!
# The workers

What a worker does with a job: `a_transformer.cpp`, and `resize` of `transforms.cpp`. ImageMagick is
a parameter, a structure of the functions the code calls; `Magick.Lawful` is what is relied on. The
limit for the pixels of a resulting image is checked only where the image is resized:
`pixel_limit_iff` says when it holds all the same.
-/

namespace Shrimp

open Execution

/-! ## ImageMagick -/

/-- `Magick::Image` as far as it is used. The methods that change an image give the changed one. -/
structure Magick (Image : Type) where
  read : CxxString → Except StdException Image
  size : Image → Geometry
  resize : Image → Geometry → Except StdException Image
  magick : Image → String → Except StdException Image
  write : Image → Except StdException Blob

/-- An image has the size it was resized to, and the choice of the format it is encoded in does not
change the size. -/
structure Magick.Lawful {Image : Type} (m : Magick Image) : Prop where
  size_resize : ∀ {image image' : Image} {size : Geometry},
    m.resize image size = .ok image' → m.size image' = size
  size_magick : ∀ {image image' : Image} {format : String},
    m.magick image format = .ok image' → m.size image' = m.size image

/-- Images of which only the sizes are known: `files` gives those of the files there are. -/
def Magick.ofSizes (files : CxxString → Option Geometry) : Magick Geometry where
  read name := match files name with
    | some size => .ok size
    | none => .error ⟨"unable to open image"⟩
  size image := image
  resize _ size := .ok size
  magick image _ := .ok image
  write image := .ok ⟨0, image.width⟩

/-- The images of a given size are lawful: they are scaled to what is asked for. -/
theorem Magick.lawful_ofSizes (files : CxxString → Option Geometry) : (ofSizes files).Lawful where
  size_resize h := (Except.ok.inj h).symm
  size_magick h := (Except.ok.inj h).symm

section Transform
variable {Image : Type} (m : Magick Image)

/-- `resize`. -/
def Transform.resize (e : FloatErrors) (params : ResizeParams) (totalPixelsLimit : UInt64)
    (img : Image) : Except StdException Image := do
  let resultSize ← calculateResultSize e (m.size img) params
  checkImageSize resultSize totalPixelsLimit
  m.resize img resultSize

/-- `make_blob`, where `lastModifiedAt` is the time it is called. -/
def makeBlob (lastModifiedAt : Int) (image : Image) : Except StdException DatasizableBlob := do
  let blob ← m.write image
  return ⟨blob, lastModifiedAt⟩

end Transform

/-! ## The transformation of an image -/

namespace Transformer

/-- `total_pixel_count`. -/
def totalPixelCount : UInt64 := 5000 * 5000

/-- `magick_from_image_format`. -/
def magickFromImageFormat : ImageFormat → String
  | .jpeg => "JPG"
  | .gif => "GIF"
  | .png => "PNG"
  | .webp => "WEBP"
  | .heic => "HEIC"

/-- What `handle_resize_request` reads from the clocks: how long it took to resize and to encode the
image, in microseconds, and when the blob was made. -/
structure Timing where
  resizeDuration : Int
  encodingDuration : Int
  lastModifiedAt : Int

section Worker
variable {Image : Type} (m : Magick Image) (rootDir : CxxString) (e : FloatErrors)

/-- `load_image`. -/
def loadImage (imageName : CxxString) : Except StdException Image :=
  m.read (makeFullPath rootDir imageName)

/-- The image `handle_resize_request` encodes. -/
def transformedImage (key : ResizeRequestKey) : Except StdException Image := do
  let image ← loadImage m rootDir key.path
  -- Actual resize operation is necessary if keep_original mode is not used.
  let image ←
    if key.params.mode ≠ .keepOriginal then
      Transform.resize m e key.params totalPixelCount image
    else
      pure image
  m.magick image (magickFromImageFormat key.format)

/-- `handle_resize_request`. -/
def handleResizeRequest (t : Timing) (key : ResizeRequestKey) : ResizeOutcome :=
  let result : Except StdException SuccessfulResize := do
    let image ← transformedImage m rootDir e key
    let blob ← makeBlob m t.lastModifiedAt image
    return ⟨blob, t.resizeDuration, t.encodingDuration⟩
  match result with
  | .ok result => .successful result
  | .error x => .failed ⟨x.what⟩

end Worker

/-! ## The limit for the pixels of a result -/

/-- Of a source of that size these parameters never make an image with too many pixels, whatever
ImageMagick, the floats and the clocks do and wherever the image is. -/
def PixelLimit (size : Geometry) (params : ResizeParams) : Prop :=
  ∀ (Image : Type) (m : Magick Image) (rootDir : CxxString) (e : FloatErrors) (t : Timing)
    (path : CxxString) (format : ImageFormat) (source image : Image) (result : SuccessfulResize),
    m.Lawful → m.read (makeFullPath rootDir path) = .ok source → m.size source = size →
    handleResizeRequest m rootDir e t ⟨path, format, params⟩ = .successful result →
    transformedImage m rootDir e ⟨path, format, params⟩ = .ok image →
    (m.size image).area ≤ totalPixelCount.toNat

section Limit
variable {Image : Type} {m : Magick Image} {rootDir : CxxString} {e : FloatErrors} {t : Timing}
  {key : ResizeRequestKey}

/-- A success is the encoding of an image. -/
theorem handleResizeRequest_eq_successful {result : SuccessfulResize} :
    handleResizeRequest m rootDir e t key = .successful result ↔ ∃ image blob,
      transformedImage m rootDir e key = .ok image ∧ m.write image = .ok blob ∧
        result = ⟨⟨blob, t.lastModifiedAt⟩, t.resizeDuration, t.encodingDuration⟩ := by
  unfold handleResizeRequest makeBlob
  cases himage : transformedImage m rootDir e key with
  | error x => simp [bind, Except.bind]
  | ok image =>
    cases hblob : m.write image with
    | error x => simp [hblob, bind, Except.bind]
    | ok blob => simp [hblob, bind, Except.bind, eq_comm]

/-- An image that is resized has the size that was calculated and that passed the check. -/
theorem resize_eq_ok {params : ResizeParams} {limit : UInt64} {img img' : Image} :
    Transform.resize m e params limit img = .ok img' ↔
      ∃ size, Transform.calculateResultSize e (m.size img) params = .ok size ∧
        Transform.checkImageSize size limit = .ok () ∧ m.resize img size = .ok img' := by
  unfold Transform.resize
  simp only [bind_eq_ok]
  constructor
  · rintro ⟨size, hsize, _, hcheck, hresize⟩
    exact ⟨size, hsize, hcheck, hresize⟩
  · rintro ⟨size, hsize, hcheck, hresize⟩
    exact ⟨size, hsize, (), hcheck, hresize⟩

/-- The encoded image comes from the source, by way of `resize` unless the size is kept. -/
theorem transformedImage_eq_ok {image : Image} :
    transformedImage m rootDir e key = .ok image ↔ ∃ source resized,
      m.read (makeFullPath rootDir key.path) = .ok source ∧
      (if key.params.mode ≠ .keepOriginal then
        Transform.resize m e key.params totalPixelCount source else .ok source) = .ok resized ∧
      m.magick resized (magickFromImageFormat key.format) = .ok image := by
  unfold transformedImage loadImage
  by_cases hmode : key.params.mode ≠ .keepOriginal
  · simp only [if_pos hmode, bind_eq_ok, exists_and_left]
  · simp only [if_neg hmode, bind_eq_ok, pure_eq_ok, exists_and_left]

/-- In `keep_original` mode the source is encoded as large as it is. -/
theorem PixelLimit.area_le {size : Geometry} {params : ResizeParams} (h : PixelLimit size params)
    (hmode : params.mode = .keepOriginal) : size.area ≤ totalPixelCount.toNat := by
  have himage : transformedImage (Magick.ofSizes fun _ => some size) [] .exact ⟨[], .png, params⟩ =
      .ok size := by
    refine transformedImage_eq_ok.2 ⟨size, size, rfl, ?_, rfl⟩
    rw [if_neg fun hne => hne hmode]
  exact h Geometry _ [] .exact ⟨0, 0, 0⟩ [] .png size size _ (Magick.lawful_ofSizes _) rfl rfl
    (handleResizeRequest_eq_successful.2 ⟨size, _, himage, rfl, rfl⟩) himage

/-- The limit holds exactly if an image whose size is kept was within it: the check is part of
`resize`. -/
theorem pixel_limit_iff (size : Geometry) (params : ResizeParams) (hsize : size.Valid)
    (hparams : params.Accepted) :
    PixelLimit size params ↔ (params.mode = .keepOriginal → size.area ≤ totalPixelCount.toNat) := by
  refine ⟨fun h hmode => h.area_le hmode, ?_⟩
  intro hkeep Image m rootDir e t path format source image result hm hread hsource _ himage
  obtain ⟨source', resized, hread', hresized, hmagick⟩ := transformedImage_eq_ok.1 himage
  cases Except.ok.inj (hread.symm.trans hread')
  rw [hm.size_magick hmagick]
  by_cases hmode : params.mode = .keepOriginal
  · rw [if_neg fun hne => hne hmode] at hresized
    cases Except.ok.inj hresized
    rw [hsource]
    exact hkeep hmode
  · rw [if_pos hmode] at hresized
    obtain ⟨size', hsize', hcheck, hresize⟩ := resize_eq_ok.1 hresized
    rw [hsource] at hsize'
    have harea := Transform.area_lt_of_eq_ok hsize hparams hmode hsize'
    rw [hm.size_resize hresize]
    exact (Transform.checkImageSize_eq_ok harea _).1 hcheck

/-- A source of exactly as many pixels as the limit allows may be kept. -/
theorem pixel_limit_iff_square : PixelLimit ⟨5000, 5000⟩ .keepOriginal :=
  (pixel_limit_iff ⟨5000, 5000⟩ .keepOriginal ⟨by decide, by decide, by decide, by decide⟩
    ⟨⟨none, none, none, rfl⟩, rfl⟩).2 fun _ => by decide

/-- One more column, and a request to keep the size makes an image beyond the limit. -/
theorem pixel_limit_violated :
    ¬ ∀ size params, size.Valid → params.Accepted → PixelLimit size params := by
  intro h
  have hlimit : PixelLimit ⟨5001, 5000⟩ .keepOriginal :=
    h ⟨5001, 5000⟩ .keepOriginal ⟨by decide, by decide, by decide, by decide⟩
      ⟨⟨none, none, none, rfl⟩, rfl⟩
  exact absurd (hlimit.area_le rfl) (by decide)

end Limit

end Transformer

end Shrimp
