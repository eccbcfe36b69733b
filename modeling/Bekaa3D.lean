import Bekaa3D.Identity.Resets
import Bekaa3D.Identity.Activation
import Bekaa3D.Identity.Verification
import Bekaa3D.Identity.Codec
import Bekaa3D.Identity.Totp
import Bekaa3D.Admin.Repair
import Bekaa3D.Admin.Lifecycle
import Bekaa3D.Api.Lists
import Bekaa3D.Engagement.Isolation
import Bekaa3D.Identity.Sliding
import Bekaa3D.Identity.RecoveryCodes
import Bekaa3D.Core.RateLimit
import Bekaa3D.Admin.Slugs
import Bekaa3D.Platform.Redaction
import Bekaa3D.Engagement.Payload
import Bekaa3D.Api.CursorNoise
import Bekaa3D.Platform.SettingsList
import Bekaa3D.Identity.Rotation
import Bekaa3D.Identity.SecondFactors
import Bekaa3D.Jobs.Duplicates
import Bekaa3D.Jobs.Progress
