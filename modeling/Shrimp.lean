import Shrimp.App.Start
import Shrimp.HttpServer.BadInput
import Shrimp.HttpServer.ServedPaths
import Shrimp.Server.Deletion
import Shrimp.Server.Images
import Shrimp.Server.Responses
import Shrimp.Server.Rest
import Shrimp.TransformManager.Dispatch
import Shrimp.TransformManager.Fairness
import Shrimp.TransformManager.LifeCycle
import Shrimp.TransformManager.Progress
import Shrimp.TransformManager.RequestIdentity
import Shrimp.TransformManager.Retention
import Shrimp.TransformManager.Sharing
import Shrimp.TransformManager.StoreSteps
import Shrimp.TransformManager.Timers
