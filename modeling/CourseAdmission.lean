import CourseAdmission.CommandLine.NearMisses
import CourseAdmission.CommandLine.Sample
import CourseAdmission.Main
import CourseAdmission.Proofs.CommandLine.Batch
import CourseAdmission.Proofs.CommandLine.Checking
import CourseAdmission.Proofs.CommandLine.Compare
import CourseAdmission.Proofs.CommandLine.NearMisses
import CourseAdmission.Proofs.Criteria.Config
import CourseAdmission.Proofs.Criteria.Respelled
import CourseAdmission.Proofs.Criteria.TwoFormats
import CourseAdmission.Proofs.ExactSum.Nearest
import CourseAdmission.Proofs.Report.Accounting
import CourseAdmission.Proofs.Report.Additive
import CourseAdmission.Proofs.Report.Denials
import CourseAdmission.Proofs.Report.Evaluated
import CourseAdmission.Proofs.Report.Page
import CourseAdmission.Proofs.Report.Percentages
import CourseAdmission.Proofs.Report.RawData
import CourseAdmission.Proofs.Report.Reversed
import CourseAdmission.Proofs.RoundingPolicy.Ties
import CourseAdmission.Proofs.Verdict.AtThreshold
import CourseAdmission.Proofs.Verdict.Duplicates
import CourseAdmission.Proofs.Verdict.Growth
import CourseAdmission.Proofs.Verdict.NonFinite
import CourseAdmission.Proofs.Verdict.Permuted
import CourseAdmission.Proofs.Verdict.Strictest
import CourseAdmission.Proofs.Verdict.Unrelated
import CourseAdmission.Proofs.Verdict.WholeShare
import CourseAdmission.Proofs.Verdict.ZeroThresholds
